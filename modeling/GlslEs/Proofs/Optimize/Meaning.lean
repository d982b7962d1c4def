import GlslEs.Proofs.Optimize.Algebra
import GlslEs.Proofs.Optimize.Neutral
import GlslEs.Proofs.Optimize.Step
import GlslEs.Proofs.Semantics.Rational

/-!
# Optimization keeps what expressions mean

A rule turns a typed expression into a typed one that does the same.  So does any number of rules
at one node, a pass over all nodes, and any number of passes.

* `Machine.kept_of_turns`: one rule.
* `Machine.preserves_typed`: passes.
* `Machine.eval_optimized`: all passes with all rules.
-/

namespace GlslEs

variable {F : Type} {Γ : Environment}

namespace Eval

variable {α β : Type}

theorem ofOption_bind (o : Option α) (k : α → Option β) :
    (ofOption o >>= fun a => ofOption (k a) : Eval F β) = ofOption (o.bind k) := by
  funext σ
  cases o with
  | none | some a => rfl

end Eval

namespace Machine

variable {note inner : Note} {op : ArithOp} {a : Expr} {f : FloatArith F} {scope : NegationScope}
  {u : Scalar → Datum F} {rules : List Rule}

open Environment

variable {m : Machine F Γ}

theorem typed_of_mem_children {e c : Expr} (h : Γ.Typed e) (hc : c ∈ e.children) : Γ.Typed c :=
  (typed_iff.mp h).2 c hc

/-! ### Rules -/

theorem eval_sign {op : UnaryOp} (hop : op.isIncrement = false) :
    m.eval (.unary note op a) =
      m.eval a >>= fun v => Eval.ofOption (v.unary? m.floats op) := by
  rw [eval_unary, hop]
  rfl

theorem eval_operation {op : BinaryOp} {b : Expr} (hop : ∀ v : Value F, shortcut? op v = none) :
    m.eval (.binary note op a b) =
      m.eval a >>= fun v => m.eval b >>= fun w =>
        Eval.ofOption (m.operate op a.ty b.ty v w) := by
  rw [eval_binary]
  simp only [hop]

/-- Computations agree with one of their parts if the rest of them gives that part's value. -/
theorem agree_of_rest {P : Value F → Prop} {x : Eval F (Value F)} {o : Value F → Option (Value F)}
    (hx : Γ.Agree P x x) (ho : ∀ v, P v → o v = some v) :
    Γ.Agree P (x >>= fun v => Eval.ofOption (o v)) x := by
  have h : Γ.Agree P (x >>= fun v => Eval.ofOption (o v)) (x >>= Pure.pure) :=
    hx.bind fun v hv => by rw [ho v hv]; exact .pure hv
  rwa [bind_pure] at h

theorem alike_plus (ht : Γ.Typed (.unary note .plus a)) : m.Alike (.unary note .plus a) a := by
  obtain ⟨⟨-, hfits⟩, hchildren⟩ := typed_iff.mp ht
  have hty : note.ty = a.ty := UnaryOp.result?_eq hfits.1
  obtain ⟨s, shape, hs, -⟩ := UnaryOp.value_of_result? hfits.1
  refine .of_value hty rfl rfl ?_
  rw [eval_sign rfl]
  refine agree_of_rest (alike_of_typed m (hchildren a (by simp [Expr.children]))).value fun v hv => ?_
  exact Value.unary?_plus (hs ▸ hv)

theorem alike_twice {op : UnaryOp}
    (ht : Γ.Typed (.unary note op (.unary inner op a))) (hop : op.isIncrement = false) (hty : a.ty = note.ty) :
    m.Alike (.unary note op (.unary inner op a)) a := by
  have hinner := typed_of_mem_children ht (c := .unary inner op a) (by simp [Expr.children])
  obtain ⟨⟨-, hfits⟩, hchildren⟩ := typed_iff.mp hinner
  refine .of_value hty.symm rfl rfl ?_
  rw [eval_sign hop, eval_sign hop, bind_assoc]
  simp only [Eval.ofOption_bind]
  exact agree_of_rest (alike_of_typed m (hchildren a (by simp [Expr.children]))).value fun v hv =>
    Value.unary?_unary? hop hfits.1 hv

/-- A scope of negation that a carrier of floating-point numbers allows. -/
def Allows (f : FloatArith F) (scope : NegationScope) : Prop := scope = .always → f.TotalOrder

theorem negates_of_allows (hf : Allows f scope)
    {op : CompareOp} {t : Ty} (h : scope.allows op t = true) : Value.Negates f op t := by
  simp only [NegationScope.allows, Bool.or_eq_true, decide_eq_true_eq, Bool.not_eq_true'] at h
  rcases h with (h | h) | h
  · exact Or.inr (Or.inr (hf h))
  · exact Or.inl h
  · exact Or.inr (Or.inl h)

theorem typed_negated {op : CompareOp} {b : Expr}
    (ht : Γ.Typed (.unary note .not (.binary inner (.compare op) a b))) :
    Γ.Typed (.binary ⟨note.ty, inner.qualifiers, note.loc⟩ (.compare op.negated) a b) := by
  obtain ⟨⟨herror, hfits⟩, hchildren⟩ := typed_iff.mp ht
  obtain ⟨⟨-, hfits'⟩, hchildren'⟩ :=
    typed_iff.mp (hchildren (.binary inner (.compare op) a b) (by simp [Expr.children]))
  have hty : note.ty = inner.ty := UnaryOp.result?_eq hfits.1
  exact typed_iff.mpr ⟨⟨herror, (CompareOp.result?_negated op a.ty b.ty).trans (hty ▸ hfits')⟩, hchildren'⟩

theorem alike_negated (hf : Allows m.floats scope) {op : CompareOp}
    {b : Expr} (hallowed : scope.allows op a.ty = true)
    (ht : Γ.Typed (.unary note .not (.binary inner (.compare op) a b))) :
    m.Alike (.unary note .not (.binary inner (.compare op) a b))
      (.binary ⟨note.ty, inner.qualifiers, note.loc⟩ (.compare op.negated) a b) := by
  obtain ⟨⟨-, hcompare⟩, hchildren⟩ := typed_iff.mp (typed_negated ht)
  refine .of_value (t := note.ty) rfl rfl rfl ?_
  have heq : m.eval (.unary note .not (.binary inner (.compare op) a b)) =
      m.eval a >>= fun v => m.eval b >>= fun w =>
        Eval.ofOption ((v.compare? m.floats op w).bind (Value.unary? m.floats .not)) := by
    rw [eval_sign rfl, eval_operation (fun _ => rfl)]
    simp only [bind_assoc, ← Eval.ofOption_bind]
    rfl
  rw [heq, eval_operation (fun _ => rfl)]
  refine (alike_of_typed m (hchildren a (by simp [Expr.children]))).value.bind fun v hv => ?_
  refine (alike_of_typed m (hchildren b (by simp [Expr.children]))).value.bind fun w hw => ?_
  rw [Value.compare?_negated (negates_of_allows hf hallowed) hv]
  exact .ofOption fun u hu => operate_hasType hcompare hv hw hu

/-- The condition of a conditional with a negated condition. -/
theorem typed_turned {c b : Expr} (ht : Γ.Typed (.ternary note (.unary inner .not c) a b)) :
    Γ.Typed (.ternary note c b a) := by
  obtain ⟨⟨herror, htnot, hta, htb⟩, hchildren⟩ := typed_iff.mp ht
  have hnot := hchildren (.unary inner .not c) (by simp [Expr.children])
  have htc : c.ty = .bool := (UnaryOp.result?_eq (typed_iff.mp hnot).1.2.1).symm.trans htnot
  have hc := typed_of_mem_children hnot (c := c) (by simp [Expr.children])
  exact typed_iff.mpr ⟨⟨herror, htc, htb, hta⟩, by simp_all [Expr.children]⟩

theorem alike_turned {c b : Expr} (ht : Γ.Typed (.ternary note (.unary inner .not c) a b)) :
    m.Alike (.ternary note (.unary inner .not c) a b) (.ternary note c b a) := by
  obtain ⟨⟨-, htc, htb, hta⟩, hchildren⟩ := typed_iff.mp (typed_turned ht)
  refine .of_value (t := note.ty) rfl rfl rfl ?_
  rw [eval_ternary, eval_ternary, eval_sign rfl, bind_assoc]
  refine (alike_of_typed m (hchildren c (by simp [Expr.children]))).value.bind fun v hv => ?_
  rw [htc] at hv
  obtain ⟨t, rfl⟩ := hv.bool_of
  cases t with
  | true => exact htb ▸ (alike_of_typed m (hchildren b (by simp [Expr.children]))).value
  | false => exact hta ▸ (alike_of_typed m (hchildren a (by simp [Expr.children]))).value

/-- An expression with one component everywhere. -/
def EvalsTo (m : Machine F Γ) (e : Expr) (u : Scalar → Datum F) : Prop :=
  ∃ s shape, e.ty = ⟨.value s shape, none⟩ ∧
    m.eval e = pure (.data (List.replicate shape.components (u s)))

/-- An operand on the right that is neutral may be left out. -/
theorem alike_neutral_right {b : Expr}
    (ht : Γ.Typed (.binary note (.arith op) a b)) (hop : op.IsField)
    (hu : ∀ x : Datum F, x.scalar ≠ .bool → Datum.arith? m.floats op x (u x.scalar) = some x)
    (hb : m.EvalsTo b u) (hty : a.ty = note.ty)
    (hmul : op = .mul → a.ty.shape.MultipliesAlike b.ty.shape) :
    m.Alike (.binary note (.arith op) a b) a := by
  obtain ⟨⟨-, hfits⟩, hchildren⟩ := typed_iff.mp ht
  have ha := hchildren a (by simp [Expr.children])
  have hres : (BinaryOp.arith op).result? a.ty b.ty = some note.ty := hfits
  rw [← hty] at hres
  obtain ⟨s, shape, hs, hv⟩ := hb
  rw [hs] at hres hmul
  refine .of_value hty.symm rfl rfl ?_
  rw [eval_operation (fun _ => rfl), hv, hs]
  simp only [pure_bind]
  exact agree_of_rest (alike_of_typed m ha).value fun v hv =>
    Value.arith?_neutral_right hop hu hres hmul hv

/-- An operand on the left that acts as a sign. -/
theorem agree_neutral_left {sign : UnaryOp} {b : Expr}
    (ht : Γ.Typed (.binary note (.arith op) a b)) (hop : op.IsField)
    (hu : ∀ x : Datum F, x.scalar ≠ .bool →
      Datum.arith? m.floats op (u x.scalar) x = Datum.unary? m.floats sign x)
    (ha : m.EvalsTo a u) (hty : b.ty = note.ty)
    (hmul : op = .mul → a.ty.shape.MultipliesAlike b.ty.shape) :
    Γ.Agree (·.HasType Γ.structs b.ty) (m.eval (.binary note (.arith op) a b))
      (m.eval b >>= fun w => Eval.ofOption (w.unary? m.floats sign)) := by
  obtain ⟨⟨-, hfits⟩, hchildren⟩ := typed_iff.mp ht
  have hb := hchildren b (by simp [Expr.children])
  have hres : (BinaryOp.arith op).result? a.ty b.ty = some note.ty := hfits
  rw [← hty] at hres
  obtain ⟨s, shape, hs, hv⟩ := ha
  rw [hs] at hres hmul
  rw [eval_operation (fun _ => rfl), hv, hs, pure_bind]
  refine (alike_of_typed m hb).value.bind fun w hw => ?_
  simp only [operate, Value.arith?_neutral_left hop hu hres hmul hw]
  exact .ofOption fun u hu => Value.unary?_hasType hw hu

theorem alike_neutral_left {b : Expr}
    (ht : Γ.Typed (.binary note (.arith op) a b)) (hop : op.IsField)
    (hu : ∀ x : Datum F, x.scalar ≠ .bool → Datum.arith? m.floats op (u x.scalar) x = some x)
    (ha : m.EvalsTo a u) (hty : b.ty = note.ty)
    (hmul : op = .mul → a.ty.shape.MultipliesAlike b.ty.shape) :
    m.Alike (.binary note (.arith op) a b) b := by
  obtain ⟨⟨-, hfits⟩, hchildren⟩ := typed_iff.mp ht
  have hb := hchildren b (by simp [Expr.children])
  obtain ⟨s, lsh, rsh, -, hs, -, -⟩ := hop.operands hfits hmul
  refine .of_value hty.symm rfl rfl ?_
  have hplus : ∀ x : Datum F, x.scalar ≠ .bool →
      Datum.arith? m.floats op (u x.scalar) x = Datum.unary? m.floats .plus x := by
    intro x hx
    rw [hu x hx]
    cases x <;> rfl
  refine (agree_neutral_left ht hop hplus ha hty hmul).trans ?_
  exact agree_of_rest (alike_of_typed m hb).value fun w hw => Value.unary?_plus (hs ▸ hw)

theorem alike_left {b : Expr} (ht : Γ.Typed (.binary note (.arith op) a b))
    (h : Rule.RightNeutral op a b) (hty : a.ty = note.ty) : m.Alike (.binary note (.arith op) a b) a := by
  have hb := typed_of_mem_children ht (c := b) (by simp [Expr.children])
  rcases h with ⟨hop, hzero⟩ | ⟨hop, hone, hcomponents⟩
  · have hvalue := eval_of_isZero (m := m) hb hzero
    rcases hop with rfl | rfl
    · exact alike_neutral_right ht (.inl rfl) (fun x hx => (Datum.arith?_zero hx).1) hvalue hty (by simp)
    · exact alike_neutral_right ht (.inr (.inl rfl)) (fun x hx => (Datum.arith?_zero hx).2.2.1) hvalue hty (by simp)
  · obtain ⟨hmatrix, hvalue⟩ := eval_of_isOne (m := m) hb hone
    obtain ⟨s, shape, hs, -⟩ := id hvalue
    rcases hop with rfl | rfl
    · exact alike_neutral_right ht (.inr (.inr (.inl rfl))) (fun x hx => (Datum.arith?_one hx).1) hvalue hty
        fun _ => (Rule.multipliesAlike hmatrix hcomponents (by rw [hs])).symm
    · exact alike_neutral_right ht (.inr (.inr (.inr rfl))) (fun x hx => (Datum.arith?_one hx).2.2) hvalue hty (by simp)

theorem alike_right {b : Expr} (ht : Γ.Typed (.binary note (.arith op) a b))
    (h : Rule.LeftNeutral op a b) (hty : b.ty = note.ty) : m.Alike (.binary note (.arith op) a b) b := by
  have ha := typed_of_mem_children ht (c := a) (by simp [Expr.children])
  rcases h with ⟨rfl, hzero⟩ | ⟨rfl, hone, -, hcomponents⟩
  · exact alike_neutral_left ht (.inl rfl) (fun x hx => (Datum.arith?_zero hx).2.1) (eval_of_isZero ha hzero) hty
      (by simp)
  · obtain ⟨hmatrix, hvalue⟩ := eval_of_isOne (m := m) ha hone
    obtain ⟨s, shape, hs, -⟩ := id hvalue
    exact alike_neutral_left ht (.inr (.inr (.inl rfl))) (fun x hx => (Datum.arith?_one hx).2.1) hvalue hty
      fun _ => Rule.multipliesAlike hmatrix hcomponents (by rw [hs])

/-- `0 - b` is `-b`. -/
theorem kept_minus {b : Expr} (ht : Γ.Typed (.binary note (.arith .sub) a b))
    (ha : a.isZero = true) (hty : b.ty = note.ty) :
    Γ.Typed (.unary ⟨b.ty, note.qualifiers, note.loc⟩ .minus b) ∧
      m.Alike (.binary note (.arith .sub) a b) (.unary ⟨b.ty, note.qualifiers, note.loc⟩ .minus b) := by
  have hop : ArithOp.sub.IsField := .inr (.inl rfl)
  have hb := typed_of_mem_children ht (c := b) (by simp [Expr.children])
  obtain ⟨s, lsh, rsh, -, hs, hne, -⟩ := hop.operands (typed_iff.mp ht).1.2 (by simp)
  have hminus : UnaryOp.minus.result? b.ty = some b.ty := by
    rw [hs]
    exact if_pos (Ty.isArithmetic_value hne)
  refine ⟨typed_iff.mpr ⟨⟨(typed_iff.mp hb).1.1, hminus, fun h => by cases h⟩, by simpa [Expr.children] using hb⟩, ?_⟩
  refine .of_value hty.symm rfl rfl ?_
  rw [eval_sign rfl]
  exact agree_neutral_left ht hop (fun x hx => (Datum.arith?_zero hx).2.2.2)
    (eval_of_isZero (typed_of_mem_children ht (by simp [Expr.children])) ha) hty (by simp)

/-- Rules whose negations a carrier of floating-point numbers allows. -/
def AllowsAll (f : FloatArith F) (rules : List Rule) : Prop :=
  ∀ scope, Rule.relationalNegation scope ∈ rules → Allows f scope

/-- **A rule turns a typed expression into a typed one that does the same.** -/
theorem kept_of_turns (hf : AllowsAll m.floats rules) {e e' : Expr} (ht : Γ.Typed e)
    (h : Rule.Turns rules e e') : Γ.Typed e' ∧ m.Alike e e' := by
  cases h with
  | plus note x => exact ⟨typed_of_mem_children ht (by simp [Expr.children]), alike_plus ht⟩
  | @twice note inner op x hop hty =>
    have hinner := typed_of_mem_children ht (c := .unary inner op e') (by simp [Expr.children])
    exact ⟨typed_of_mem_children hinner (by simp [Expr.children]), alike_twice ht hop hty⟩
  | negated hrule note inner b hallowed => exact ⟨typed_negated ht, alike_negated (hf _ hrule) hallowed ht⟩
  | turned note inner c a b => exact ⟨typed_turned ht, alike_turned ht⟩
  | left hb hty => exact ⟨typed_of_mem_children ht (by simp [Expr.children]), alike_left ht hb hty⟩
  | right ha hty => exact ⟨typed_of_mem_children ht (by simp [Expr.children]), alike_right ht ha hty⟩
  | minus ha hty => exact kept_minus ht ha hty

/-! ### Passes -/

/-- Other operands that do the same. -/
theorem kept_mapVisited {e : Expr} {f : Expr → Expr} (ht : Γ.Typed e)
    (hf : ∀ c ∈ e.visited, Γ.Typed (f c) ∧ m.Alike c (f c)) : Γ.Typed (e.mapVisited f) ∧ m.Alike e (e.mapVisited f) := by
  obtain ⟨⟨herror, hfits⟩, hchildren⟩ := typed_iff.mp ht
  have hlist (es : List Expr) (hes : ∀ c ∈ es, Γ.Typed (f c) ∧ m.Alike c (f c)) :
      List.Forall₂ m.Alike es (es.map f) := by
    rw [List.forall₂_map_right_iff]
    exact List.forall₂_same.mpr fun c hc => (hes c hc).2
  have hnode (hfits : Γ.Fits (e.mapVisited f)) : Γ.Typed (e.mapVisited f) :=
    typed_iff.mpr ⟨⟨(e.ty_mapVisited f).symm ▸ herror, hfits⟩,
      e.forall_children_mapVisited hchildren fun c hc => (hf c hc).1⟩
  cases e with
  | lit note value | var note name => exact ⟨ht, alike_of_typed m ht⟩
  | unary note op a =>
    have ha := (hf a (by simp [Expr.visited, Expr.children])).2
    exact ⟨hnode ⟨ha.ty ▸ hfits.1, fun hop => ha.isPlace (hfits.2 hop)⟩, alike_unary hfits ha⟩
  | binary note op a b =>
    have ha := (hf a (by simp [Expr.visited, Expr.children])).2
    have hb := (hf b (by simp [Expr.visited, Expr.children])).2
    refine ⟨hnode ?_, alike_binary hfits ha hb⟩
    rw [Expr.mapVisited, Fits, ha.ty, hb.ty]
    exact hfits
  | assign note op a b =>
    have ha := (hf a (by simp [Expr.visited, Expr.children])).2
    have hb := (hf b (by simp [Expr.visited, Expr.children])).2
    refine ⟨hnode ?_, alike_assign hfits ha hb⟩
    rw [Expr.mapVisited, Fits, ha.ty, hb.ty]
    exact ⟨hfits.1, ha.isPlace hfits.2.1, hfits.2.2⟩
  | ternary note c a b =>
    have hc := (hf c (by simp [Expr.visited, Expr.children])).2
    have ha := (hf a (by simp [Expr.visited, Expr.children])).2
    have hb := (hf b (by simp [Expr.visited, Expr.children])).2
    refine ⟨hnode ?_, alike_ternary hfits hc ha hb⟩
    rw [Expr.mapVisited, Fits, hc.ty, ha.ty, hb.ty]
    exact hfits
  | call note callee args =>
    cases callee with
    | builtin name => exact ⟨ht, alike_of_typed m ht⟩
    | constructor ty =>
      have hargs := hlist args hf
      refine ⟨hnode ?_, alike_constructor (any_isError_of_typed hchildren) hfits hargs⟩
      rw [Expr.mapVisited, Fits, map_ty_of_alike hargs]
      · exact hfits
      · simp
    | user name =>
      have hargs := hlist args hf
      refine ⟨hnode ?_, alike_call (by simp) hfits hargs⟩
      obtain ⟨s, hs, hty, hplaces⟩ := hfits
      exact ⟨s, map_ty_of_alike hargs ▸ hs, hty, arePlaces_of_alike hargs hplaces⟩
  | swizzle note a set ks =>
    have ha := (hf a (by simp [Expr.visited, Expr.children])).2
    refine ⟨hnode ?_, alike_swizzle herror hfits ha⟩
    rw [Expr.mapVisited, Fits, ha.ty]
    exact hfits
  | field note a name =>
    have ha := (hf a (by simp [Expr.visited, Expr.children])).2
    refine ⟨hnode ?_, alike_field hfits ha⟩
    rw [Expr.mapVisited, Fits, ha.ty]
    exact hfits
  | index note a b =>
    have ha := (hf a (by simp [Expr.visited, Expr.children])).2
    have hb := (hf b (by simp [Expr.visited, Expr.children])).2
    refine ⟨hnode ?_, alike_index hfits ha hb⟩
    rw [Expr.mapVisited, Fits, ha.ty, hb.ty]
    exact hfits
  | seq note es =>
    have hes := hlist es hf
    refine ⟨hnode ?_, alike_seq hfits hes⟩
    rw [Fits, ← List.getLast?_map] at hfits
    rw [Expr.mapVisited, Fits, ← List.getLast?_map, map_ty_of_alike hes, hfits]

/-- **Passes turn a typed expression into a typed one that does the same.** -/
theorem preserves_typed (hf : AllowsAll m.floats rules) :
    Optimize.Preserves rules Γ.Typed m.Alike where
  refl ht := alike_of_typed m ht
  trans h h' := h.trans h'
  turns ht h := kept_of_turns hf ht h
  child {e _} ht hc := typed_of_mem_children ht (e.visited_subset_children hc)
  visited ht hf := kept_mapVisited ht hf

/-! ### An expression with an effect -/

/-- Two variables of one floating-point number each, and no functions. -/
def twoFloats : Environment where
  typeOf? x := if x = "x" ∨ x = "y" then some .float else none
  structs := []
  callType? _ _ := none

/-- Exact arithmetic without functions. -/
def rationals : Machine ℚ twoFloats where
  floats := .rational
  call _ _ _ _ := none
  call_typed h := by cases h

/-- `!(x < 0. - (y = +x)) ? y * float(1) : y`. -/
def negatedComparison : Expr :=
  let at' (t : Ty) : Note := ⟨t, .empty, ⟨1, 1, 0⟩⟩
  .ternary (at' .float)
    (.unary (at' .bool) .not (.binary (at' .bool) (.compare .lt) (.var (at' .float) "x")
      (.binary (at' .float) (.arith .sub) (.lit (at' .float) (.float .zero))
        (.assign (at' .float) .plain (.var (at' .float) "y")
          (.unary (at' .float) .plus (.var (at' .float) "x"))))))
    (.binary (at' .float) (.arith .mul) (.var (at' .float) "y")
      (.call (at' .float) (.constructor .float) [.lit (at' .int) (.int 1)]))
    (.var (at' .float) "y")

theorem typed_negatedComparison : twoFloats.Typed negatedComparison := by decide

/-! ### All passes -/

theorem allowsAll_all (hf : Allows f scope) : AllowsAll f (Rule.all scope) := by
  intro scope' h
  simp only [Rule.all, List.mem_cons, List.not_mem_nil, reduceCtorEq, or_false, false_or,
    Rule.relationalNegation.injEq] at h
  exact h ▸ hf

/-- **Optimization keeps what an expression means.**  With any options, a typed expression becomes
a typed one of the same type; from every store that respects types both give the same value and
the same store, or neither gives a result.  Comparisons of floating-point numbers have to be a
total order only if all of them may be negated. -/
theorem eval_optimized (m : Machine F Γ) (o : OptimizerOptions)
    (hf : o.negation = .always → m.floats.TotalOrder) {e : Expr} (ht : Γ.Typed e) :
    ((Optimizer.ofOptions o).expr e).1.ty = e.ty ∧
      Γ.Typed ((Optimizer.ofOptions o).expr e).1 ∧
      ∀ σ, Γ.StoreTyped σ → m.eval ((Optimizer.ofOptions o).expr e).1 σ = m.eval e σ := by
  obtain ⟨htyped, halike⟩ := (preserves_typed (allowsAll_all hf)).toFixpoint ht _
  exact ⟨halike.ty, htyped, fun σ hσ => ((halike.value σ hσ).1).symm⟩

theorem eval_optimized_negatedComparison :
    twoFloats.Typed negatedComparison ∧
      ((Optimizer.ofOptions {}).expr negatedComparison).1.size = 9 ∧
      (rationals.eval negatedComparison fun _ => .data [.float 2]).map (·.1) =
        some (.data [.float 2]) ∧
      ∀ σ, twoFloats.StoreTyped σ →
        rationals.eval ((Optimizer.ofOptions {}).expr negatedComparison).1 σ =
          rationals.eval negatedComparison σ := by
  refine ⟨typed_negatedComparison, by decide, by with_unfolding_all rfl, ?_⟩
  exact (eval_optimized rationals {} (fun _ => FloatArith.totalOrder_rational)
    typed_negatedComparison).2.2

end Machine

end GlslEs
