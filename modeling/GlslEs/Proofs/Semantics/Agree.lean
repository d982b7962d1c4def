import GlslEs.Proofs.Semantics.Eval
import GlslEs.Proofs.Tree

/-!
# Expressions that do the same

Two computations agree if they give the same result from every store that respects types, and
that result respects types again.  Operations carry agreement from operands to results, so
agreement of an expression with itself says that evaluation respects types, and agreement with
another expression says that one may stand for the other.

* `Environment.Agree`: agreement of computations.
* `Machine.Alike`: agreement of expressions, as values and as places.
* `Machine.alike_of_typed`: evaluation respects types.
-/

namespace GlslEs

variable {F α β : Type} {Γ : Environment}

/-! ### Computations -/

/-- Two computations do the same from every store that respects types, the store after them
respects types, and their result has a property. -/
def Environment.Agree (Γ : Environment) (P : α → Prop) (x y : Eval F α) : Prop :=
  ∀ σ, Γ.StoreTyped σ → x σ = y σ ∧ ∀ a σ', x σ = some (a, σ') → P a ∧ Γ.StoreTyped σ'

namespace Environment

variable {P : α → Prop} {Q : β → Prop}

theorem Agree.trans {x y z : Eval F α} (hxy : Γ.Agree P x y)
    (hyz : Γ.Agree P y z) : Γ.Agree P x z := by
  intro σ hσ
  obtain ⟨he, hp⟩ := hxy σ hσ
  exact ⟨he.trans (hyz σ hσ).1, hp⟩

/-- Agreement goes through steps that follow each other. -/
theorem Agree.bind {x y : Eval F α} {f g : α → Eval F β} (hxy : Γ.Agree P x y)
    (hfg : ∀ a, P a → Γ.Agree Q (f a) (g a)) : Γ.Agree Q (x >>= f) (y >>= g) := by
  intro σ hσ
  obtain ⟨he, hp⟩ := hxy σ hσ
  change (x σ >>= fun p => f p.1 p.2) = (y σ >>= fun p => g p.1 p.2) ∧
    ∀ a σ', (x σ >>= fun p => f p.1 p.2) = some (a, σ') → Q a ∧ Γ.StoreTyped σ'
  rw [← he]
  cases hx : x σ with
  | none => exact ⟨rfl, fun a σ' h => by cases h⟩
  | some p =>
    obtain ⟨a, σ1⟩ := p
    obtain ⟨ha, hσ1⟩ := hp a σ1 hx
    exact hfg a ha σ1 hσ1

theorem Agree.pure {a : α} (h : P a) : Γ.Agree P (Pure.pure a : Eval F α) (Pure.pure a) := by
  intro σ hσ
  refine ⟨rfl, fun b σ' hb => ?_⟩
  cases hb
  exact ⟨h, hσ⟩

theorem Agree.map {x y : Eval F α} {f : α → β}
    (hxy : Γ.Agree P x y) (hf : ∀ a, P a → Q (f a)) : Γ.Agree Q (f <$> x) (f <$> y) := by
  rw [map_eq_pure_bind, map_eq_pure_bind]
  exact hxy.bind fun a ha => .pure (hf a ha)

theorem Agree.ofOption {o : Option α} (h : ∀ a, o = some a → P a) :
    Γ.Agree P (Eval.ofOption o : Eval F α) (Eval.ofOption o) := by
  intro σ hσ
  refine ⟨rfl, fun a σ' ha => ?_⟩
  obtain ⟨b, hb, he⟩ := Option.map_eq_some_iff.mp ha
  cases he
  exact ⟨h a hb, hσ⟩

theorem Agree.read {p : Place} {t : Ty} (hp : Γ.PlaceTyped p t) :
    Γ.Agree (·.HasType Γ.structs t) (Eval.read p : Eval F (Value F)) (Eval.read p) := by
  intro σ hσ
  refine ⟨rfl, fun a σ' ha => ?_⟩
  obtain ⟨v, hv, he⟩ := Option.map_eq_some_iff.mp ha
  cases he
  obtain ⟨r, hr, ht⟩ := hp
  exact ⟨Value.read?_hasType (hσ _ _ hr) ht hv, hσ⟩

/-- Putting a value of the right type into a place leaves all variables in their types. -/
theorem Agree.write {p : Place} {t : Ty} {v : Value F} (hp : Γ.PlaceTyped p t)
    (hv : v.HasType Γ.structs t) : Γ.Agree (fun _ => True) (Eval.write p v) (Eval.write p v) := by
  intro σ hσ
  refine ⟨rfl, fun a σ' ha => ⟨trivial, fun x t' hx => ?_⟩⟩
  obtain ⟨w, hw, he⟩ := Option.map_eq_some_iff.mp ha
  cases he
  obtain ⟨r, hr, ht⟩ := hp
  by_cases hroot : x = p.root
  · subst hroot
    rw [hr] at hx
    cases hx
    simpa using Value.write?_hasType (hσ _ _ hr) ht hv hw
  · simpa [hroot] using hσ x t' hx

end Environment

/-! ### Expressions -/

namespace Machine

variable {t : Ty} {note : Note} {name : String} {op : UnaryOp} {ks : List Nat} {es : List Expr}
  {outputs : List Bool}

open Environment

variable {m : Machine F Γ}

/-- Two expressions of one type do the same, and as places too if the first one is a place. -/
structure Alike (m : Machine F Γ) (e e' : Expr) : Prop where
  ty : e'.ty = e.ty
  value : Γ.Agree (·.HasType Γ.structs e.ty) (m.eval e) (m.eval e')
  isPlace : e.isPlace = true → e'.isPlace = true
  place : e.isPlace = true → Γ.Agree (Γ.PlaceTyped · e.ty) (m.evalPlace e) (m.evalPlace e')

theorem Alike.trans {e₁ e₂ e₃ : Expr} (h : m.Alike e₁ e₂) (h' : m.Alike e₂ e₃) :
    m.Alike e₁ e₃ where
  ty := h'.ty.trans h.ty
  value := h.value.trans (h.ty ▸ h'.value)
  isPlace := fun hp => h'.isPlace (h.isPlace hp)
  place := fun hp => (h.place hp).trans (h.ty ▸ h'.place (h.isPlace hp))

/-- An expression that is no place is like another one if their values agree. -/
theorem Alike.of_value {e e' : Expr} (ht : e.ty = t) (ht' : e'.ty = t)
    (hp : e.isPlace = false) (hv : Γ.Agree (·.HasType Γ.structs t) (m.eval e) (m.eval e')) :
    m.Alike e e' where
  ty := ht'.trans ht.symm
  value := ht ▸ hv
  isPlace := fun h => by rw [hp] at h; cases h
  place := fun h => by rw [hp] at h; cases h

theorem alike_lit {c : Constant} (h : Γ.Fits (.lit note c)) :
    m.Alike (.lit note c) (.lit note c) := by
  refine .of_value h h rfl ?_
  rw [eval_lit]
  refine .pure ?_
  refine .data rfl (fun d hd => ?_)
  rw [List.mem_singleton.mp hd, Datum.scalar_ofConstant]

theorem alike_var (h : Γ.Fits (.var note name)) : m.Alike (.var note name) (.var note name) := by
  have hp : Γ.PlaceTyped ⟨name, []⟩ note.ty := ⟨note.ty, h, rfl⟩
  refine ⟨rfl, ?_, id, fun _ => ?_⟩
  · rw [eval_var]
    exact .read hp
  · rw [evalPlace_var]
    exact .pure hp

theorem step?_hasType {f : FloatArith F} {structs : List (String × MemberTypes)} {v w : Value F}
    (hv : v.HasType structs t) (hw : v.step? f op = some w) : w.HasType structs t := by
  cases hv with
  | data length kinds =>
    obtain ⟨cs, hcs, rfl⟩ := Option.map_eq_some_iff.mp hw
    refine .data ((length_of_mapM hcs).trans length) (fun c hc => ?_)
    obtain ⟨x, hx, hxc⟩ := exists_of_mem_mapM hcs hc
    rw [Datum.scalar_arith? hxc, kinds x hx]
  | array | record | handle | nothing => cases hw

theorem agree_increment {p : Place} (hp : Γ.PlaceTyped p t) :
    Γ.Agree (·.HasType Γ.structs t) (m.increment op p) (m.increment op p) := by
  refine (Agree.read hp).bind fun old hold => ?_
  refine (Agree.ofOption fun new hnew => step?_hasType hold hnew).bind fun new hnew => ?_
  refine (Agree.write hp hnew).bind fun _ _ => .pure ?_
  split
  · exact hold
  · exact hnew

theorem alike_unary {a a' : Expr} (h : Γ.Fits (.unary note op a))
    (ha : m.Alike a a') : m.Alike (.unary note op a) (.unary note op a') := by
  obtain ⟨hty, hplace⟩ := h
  have hty : note.ty = a.ty := UnaryOp.result?_eq hty
  refine .of_value hty hty rfl ?_
  rw [eval_unary, eval_unary]
  split
  · rename_i hop
    exact (ha.place (hplace hop)).bind fun p hp => agree_increment hp
  · exact ha.value.bind fun v hv => .ofOption fun w hw => Value.unary?_hasType hv hw

/-- What an operation gives before its right operand is evaluated is its left operand. -/
theorem shortcut?_hasType {op : BinaryOp} {l r : Ty} {v w : Value F} (ht : op.result? l r = some t)
    (hw : shortcut? op v = some w) : w.HasType Γ.structs t := by
  unfold shortcut? at hw
  split at hw
  · cases hw
    rw [(BinaryOp.result?_logic ht).1]
    exact Value.bool_hasType false
  · cases hw
    rw [(BinaryOp.result?_logic ht).1]
    exact Value.bool_hasType true
  · cases hw

/-- **The result of an operation has the type that the rules give.** -/
theorem operate_hasType {op : BinaryOp} {l r : Ty} {v w u : Value F}
    (ht : op.result? l r = some t) (hv : v.HasType Γ.structs l) (hw : w.HasType Γ.structs r)
    (hu : m.operate op l r v w = some u) : u.HasType Γ.structs t := by
  cases op with
  | arith op => exact Value.arith?_hasType ht hv hw hu
  | compare op =>
    rw [(BinaryOp.result?_compare ht).1]
    exact Value.compare?_hasType hu
  | logic op =>
    rw [(BinaryOp.result?_logic ht).1]
    simp only [operate, Option.bind_eq_bind, Option.bind_eq_some_iff, Option.pure_def] at hu
    obtain ⟨x, -, y, -, hu⟩ := hu
    cases hu
    exact Value.bool_hasType _

theorem alike_binary {op : BinaryOp} {a a' b b' : Expr}
    (h : Γ.Fits (.binary note op a b)) (ha : m.Alike a a') (hb : m.Alike b b') :
    m.Alike (.binary note op a b) (.binary note op a' b') := by
  refine .of_value (t := note.ty) rfl rfl rfl ?_
  have ht : op.result? a.ty b.ty = some note.ty := h
  rw [eval_binary, eval_binary, ha.ty, hb.ty]
  refine ha.value.bind fun v hv => ?_
  cases hs : shortcut? op v with
  | some w => exact .pure (shortcut?_hasType ht hs)
  | none =>
    exact hb.value.bind fun w hw => .ofOption fun u hu => operate_hasType ht hv hw hu

theorem alike_ternary {c c' a a' b b' : Expr} (h : Γ.Fits (.ternary note c a b))
    (hc : m.Alike c c') (ha : m.Alike a a') (hb : m.Alike b b') :
    m.Alike (.ternary note c a b) (.ternary note c' a' b') := by
  refine .of_value (t := note.ty) rfl rfl rfl ?_
  obtain ⟨-, hta, htb⟩ := h
  rw [eval_ternary, eval_ternary]
  refine hc.value.bind fun v _ => ?_
  refine (Agree.ofOption (P := fun _ => True) fun _ _ => trivial).bind fun t _ => ?_
  split
  · exact hta ▸ ha.value
  · exact htb ▸ hb.value

theorem alike_assign {op : AssignOp} {a a' b b' : Expr}
    (h : Γ.Fits (.assign note op a b)) (ha : m.Alike a a') (hb : m.Alike b b') :
    m.Alike (.assign note op a b) (.assign note op a' b') := by
  obtain ⟨hty, hplace, htakes⟩ := h
  refine .of_value hty hty rfl ?_
  cases op with
  | plain =>
    rw [eval_assign_plain, eval_assign_plain]
    have ht : b.ty = a.ty := (beq_iff_eq.mp htakes).symm
    refine (ha.place hplace).bind fun p hp => ?_
    refine hb.value.bind fun v hv => ?_
    rw [ht] at hv
    exact (Agree.write hp hv).bind fun _ _ => .pure hv
  | joined op =>
    rw [eval_assign_joined, eval_assign_joined, ha.ty, hb.ty]
    have ht : (BinaryOp.arith op).result? a.ty b.ty = some a.ty := beq_iff_eq.mp htakes
    refine (ha.place hplace).bind fun p hp => ?_
    refine (Agree.read hp).bind fun old hold => ?_
    refine hb.value.bind fun w hw => ?_
    refine (Agree.ofOption fun v hv => operate_hasType ht hold hw hv).bind fun v hv => ?_
    exact (Agree.write hp hv).bind fun _ _ => .pure hv

/-! ### Selections -/

theorem PlaceTyped.part {p : Place} {t' : Ty} {s : Selector} (hp : Γ.PlaceTyped p t)
    (hs : s.type? Γ.structs t = some t') : Γ.PlaceTyped (p.part s) t' := by
  obtain ⟨r, hr, ht⟩ := hp
  refine ⟨r, hr, ?_⟩
  rw [Place.part, pathType?_append, ht]
  exact hs

theorem type?_parts (structs : List (String × MemberTypes)) {t' : Ty} (hks : ks ≠ []) (ht : t.swizzled ks = t')
    (herror : t'.isError = false) : (Selector.parts ks).type? structs t = some t' := by
  subst ht
  unfold Ty.swizzled at herror ⊢
  split at herror
  · split at herror
    · rename_i hall
      simp only [Selector.type?]
      rw [if_pos hall, if_neg hks]
    · cases herror
  · cases herror

theorem alike_swizzle {a a' : Expr} {set : SwizzleSet}
    (herror : note.ty.isError = false) (h : Γ.Fits (.swizzle note a set ks)) (ha : m.Alike a a') :
    m.Alike (.swizzle note a set ks) (.swizzle note a' set ks) := by
  obtain ⟨hks, hty⟩ := h
  have hs := type?_parts Γ.structs hks hty herror
  refine ⟨rfl, ?_, ha.isPlace, fun hp => ?_⟩
  · rw [eval_swizzle, eval_swizzle]
    exact ha.value.bind fun v hv => .ofOption fun w hw => Value.select?_hasType hv hs hw
  · rw [evalPlace_swizzle, evalPlace_swizzle]
    exact (ha.place hp).bind fun p hp => .pure (PlaceTyped.part hp hs)

theorem alike_field {a a' : Expr} (h : Γ.Fits (.field note a name))
    (ha : m.Alike a a') : m.Alike (.field note a name) (.field note a' name) := by
  have hs : (Selector.member name).type? Γ.structs a.ty = some note.ty := h
  refine ⟨rfl, ?_, ha.isPlace, fun hp => ?_⟩
  · rw [eval_field, eval_field]
    exact ha.value.bind fun v hv => .ofOption fun w hw => Value.select?_hasType hv hs hw
  · rw [evalPlace_field, evalPlace_field]
    exact (ha.place hp).bind fun p hp => .pure (PlaceTyped.part hp hs)

theorem alike_index {a a' b b' : Expr} (h : Γ.Fits (.index note a b))
    (ha : m.Alike a a') (hb : m.Alike b b') : m.Alike (.index note a b) (.index note a' b') := by
  obtain ⟨hty, -, -⟩ := h
  refine ⟨rfl, ?_, ha.isPlace, fun hp => ?_⟩
  · rw [eval_index, eval_index, ha.ty]
    refine ha.value.bind fun v hv => ?_
    refine hb.value.bind fun w _ => ?_
    refine (Agree.ofOption (P := fun _ => True) fun _ _ => trivial).bind fun i _ => ?_
    refine .ofOption fun u hu => ?_
    obtain ⟨s, hs, hu⟩ := Option.bind_eq_some_iff.mp hu
    exact Value.select?_hasType hv (Selector.type?_ofIndex? Γ.structs hs hty) hu
  · rw [evalPlace_index, evalPlace_index, ha.ty]
    refine (ha.place hp).bind fun p hp => ?_
    refine hb.value.bind fun w _ => ?_
    refine (Agree.ofOption (P := fun _ => True) fun _ _ => trivial).bind fun i _ => ?_
    refine (Agree.ofOption fun s hs => Selector.type?_ofIndex? Γ.structs hs hty).bind
      fun s hs => .pure (PlaceTyped.part hp hs)

/-! ### Lists of expressions -/

theorem map_ty_of_alike {es' : List Expr} (h : List.Forall₂ m.Alike es es') :
    es'.map Expr.ty = es.map Expr.ty := by
  induction h with
  | nil => rfl
  | cons h _ ih => rw [List.map_cons, List.map_cons, h.ty, ih]

theorem forall₂_getLast? {R : α → β → Prop} {as : List α} {bs : List β} (h : List.Forall₂ R as bs)
    {a : α} {b : β} (ha : as.getLast? = some a) (hb : bs.getLast? = some b) : R a b := by
  induction h with
  | nil => cases ha
  | cons h hs ih =>
    cases hs with
    | nil =>
      cases ha
      cases hb
      exact h
    | cons h' hs' => exact ih (List.getLast?_cons_cons ▸ ha) (List.getLast?_cons_cons ▸ hb)

theorem agree_evalAll {es' : List Expr} (h : List.Forall₂ m.Alike es es') :
    Γ.Agree (fun vs => List.Forall₂ (fun v t => v.HasType Γ.structs t) vs (es.map Expr.ty))
      (m.evalAll es) (m.evalAll es') := by
  induction h with
  | nil =>
    rw [evalAll_nil]
    exact .pure .nil
  | cons h _ ih =>
    rw [evalAll_cons, evalAll_cons]
    exact h.value.bind fun v hv => ih.bind fun vs hvs => .pure (.cons hv hvs)

theorem arePlaces_of_alike {es' : List Expr} (h : List.Forall₂ m.Alike es es')
    (hp : Expr.arePlaces outputs es = true) : Expr.arePlaces outputs es' = true := by
  induction h generalizing outputs with
  | nil => rfl
  | cons h _ ih =>
    simp only [Expr.arePlaces, Bool.and_eq_true, Bool.or_eq_true] at hp ⊢
    exact ⟨hp.1.imp_right h.isPlace, ih hp.2⟩

theorem agree_evalArguments {es' : List Expr} (h : List.Forall₂ m.Alike es es')
    (hp : Expr.arePlaces outputs es = true) :
    Γ.Agree (fun as => List.Forall₂ Γ.ArgumentTyped as (es.map Expr.ty))
      (m.evalArguments outputs es) (m.evalArguments outputs es') := by
  induction h generalizing outputs with
  | nil =>
    rw [evalArguments_nil]
    exact .pure .nil
  | @cons e e' es es' h _ ih =>
    rw [evalArguments_cons, evalArguments_cons]
    simp only [Expr.arePlaces, Bool.and_eq_true, Bool.or_eq_true] at hp
    have hfirst : Γ.Agree (Γ.ArgumentTyped · e.ty)
        (if outputs.headD false then .place <$> m.evalPlace e else .value <$> m.eval e)
        (if outputs.headD false then .place <$> m.evalPlace e' else .value <$> m.eval e') := by
      cases ho : outputs.headD false with
      | true =>
        have he : e.isPlace = true := hp.1.resolve_left (by rw [ho]; exact Bool.false_ne_true)
        exact (h.place he).map fun p hp => hp
      | false => exact h.value.map fun v hv => hv
    exact hfirst.bind fun a ha => (ih hp.2).bind fun as has => .pure (.cons ha has)

theorem alike_constructor {ty : Ty} {args args' : List Expr}
    (herror : (args.map Expr.ty).any Ty.isError = false)
    (h : Γ.Fits (.call note (.constructor ty) args)) (hargs : List.Forall₂ m.Alike args args') :
    m.Alike (.call note (.constructor ty) args) (.call note (.constructor ty) args') := by
  obtain ⟨hty, -, hproblem⟩ := h
  refine .of_value hty hty rfl ?_
  rw [eval_constructor, eval_constructor, map_ty_of_alike hargs]
  refine (agree_evalAll hargs).bind fun vs hvs => .ofOption fun v hv => ?_
  have hfst : ((args.map Expr.ty).zip vs).map (·.1) = args.map Expr.ty :=
    List.map_fst_zip (Nat.le_of_eq hvs.length_eq.symm)
  refine Value.construct?_hasType (by rwa [hfst]) (by rwa [hfst]) (fun a ha => ?_) hv
  exact List.forall₂_zip hvs.flip ha

theorem alike_call {callee : Callee} {args args' : List Expr}
    (hcallee : ∀ ty, callee ≠ .constructor ty)
    (h : Γ.FitsCall note callee args) (hargs : List.Forall₂ m.Alike args args') :
    m.Alike (.call note callee args) (.call note callee args') := by
  obtain ⟨s, hs, hty, hplaces⟩ := h
  refine .of_value hty hty rfl ?_
  rw [eval_call hcallee hs, eval_call hcallee (map_ty_of_alike hargs ▸ hs),
    map_ty_of_alike hargs]
  refine (agree_evalArguments hargs hplaces).bind fun as has => ?_
  intro σ hσ
  exact ⟨rfl, fun v σ' hv => m.call_typed hs has hσ hv⟩

theorem alike_seq {es' : List Expr} (h : Γ.Fits (.seq note es))
    (hes : List.Forall₂ m.Alike es es') : m.Alike (.seq note es) (.seq note es') := by
  refine .of_value (t := note.ty) rfl rfl rfl ?_
  have hlast : (es.map Expr.ty).getLast? = some note.ty := by
    rw [List.getLast?_map]
    exact h
  rw [eval_seq, eval_seq]
  refine (agree_evalAll hes).bind fun vs hvs => .ofOption fun v hv => ?_
  exact forall₂_getLast? hvs hv hlast

/-! ### Typed expressions -/

theorem typed_iff {e : Expr} :
    Γ.Typed e ↔ (e.ty.isError = false ∧ Γ.Fits e) ∧ ∀ c ∈ e.children, Γ.Typed c :=
  Expr.forall_mem_nodes

theorem any_isError_of_typed (h : ∀ e ∈ es, Γ.Typed e) :
    (es.map Expr.ty).any Ty.isError = false := by
  rw [List.any_map, List.any_eq_false]
  intro e he
  rw [Function.comp_apply, (typed_iff.mp (h e he)).1.1]
  exact Bool.false_ne_true

/-- **Evaluating a typed expression in a store that respects types gives a value of its type and a
store that respects types.** -/
theorem alike_of_typed (m : Machine F Γ) {e : Expr} (h : Γ.Typed e) : m.Alike e e := by
  induction e using Expr.forall_of_children with
  | h e ih =>
    obtain ⟨⟨herror, hfits⟩, hchildren⟩ := typed_iff.mp h
    have ih : ∀ c ∈ e.children, m.Alike c c := fun c hc => ih c hc (hchildren c hc)
    cases e with
    | lit note value => exact alike_lit hfits
    | var note name => exact alike_var hfits
    | unary note op a => exact alike_unary hfits (ih a (by simp [Expr.children]))
    | binary note op a b =>
      exact alike_binary hfits (ih a (by simp [Expr.children])) (ih b (by simp [Expr.children]))
    | assign note op a b =>
      exact alike_assign hfits (ih a (by simp [Expr.children])) (ih b (by simp [Expr.children]))
    | ternary note c a b =>
      exact alike_ternary hfits (ih c (by simp [Expr.children])) (ih a (by simp [Expr.children]))
        (ih b (by simp [Expr.children]))
    | call note callee args =>
      have hargs := List.forall₂_same.mpr ih
      cases callee with
      | constructor ty => exact alike_constructor (any_isError_of_typed hchildren) hfits hargs
      | builtin name | user name => exact alike_call (fun _ => by simp) hfits hargs
    | swizzle note a set ks => exact alike_swizzle herror hfits (ih a (by simp [Expr.children]))
    | field note a name => exact alike_field hfits (ih a (by simp [Expr.children]))
    | index note a b =>
      exact alike_index hfits (ih a (by simp [Expr.children])) (ih b (by simp [Expr.children]))
    | seq note es => exact alike_seq hfits (List.forall₂_same.mpr ih)

end Machine

end GlslEs
