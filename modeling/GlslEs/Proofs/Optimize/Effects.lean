import GlslEs.Proofs.Check.Accepted
import GlslEs.Proofs.Optimize.Meaning

/-!
# Expressions without effects

A statement such as `x += 0` is removed if finding its target has no effects.  Assignments,
increments and calls of users' functions count as effects, but calls of built-in functions do not,
although some of them write to their arguments.

* `Expr.hasEffects_iff`: what counts as an effect.
* `Value.write?_of_read?`: putting back what was read changes nothing.
* `Eval.Keeps`: computations that leave the variables as they are.
* `Machine.keeps_of_isWrite`: **what writes to nothing leaves the variables as they are**.
* `Machine.agree_of_removes`: what a rule removes only reads its target.
* `Expr.writes_nothing_iff`: which expressions without effects write to nothing, and what that means for
  statements that are removed.
* `Shader.exists_removed_output`: a removed statement that writes.
-/

namespace GlslEs

/-! ### Nodes that write -/

namespace Builtin

/-- Whether the function that a call of a built-in name means writes to an argument. -/
def hasOutput (version : Version) (name : String) (types : List Ty) : Bool :=
  (chosen? version name types).any (·.parameters.any (·.isOutput))

end Builtin

namespace Expr

/-- Whether a node assigns, increments or decrements, or calls a user's function. -/
def isEffect : Expr → Bool
  | .assign .. => true
  | .unary _ op _ => op.isIncrement
  | .call _ (.user _) _ => true
  | _ => false

/-- Whether a node calls a built-in function that writes to an argument. -/
def isOutputCall (version : Version) : Expr → Bool
  | .call _ (.builtin name) args => Builtin.hasOutput version name (args.map ty)
  | _ => false

/-- Whether a node may write to a variable. -/
def isWrite (version : Version) (e : Expr) : Bool := e.isEffect || e.isOutputCall version

theorem hasEffectsAny_eq (es : List Expr) : hasEffectsAny es = es.any hasEffects := by
  induction es with
  | nil => rfl
  | cons e es ih => rw [hasEffectsAny, ih, List.any_cons]

theorem hasEffects_eq (e : Expr) : e.hasEffects = (e.isEffect || e.children.any hasEffects) := by
  unfold hasEffects
  split <;> simp_all [isEffect, children, hasEffectsAny_eq, Bool.or_assoc]

/-- **What counts as an effect** are the nodes that assign, increment, decrement or call a user's
function. -/
theorem hasEffects_iff (e : Expr) : e.hasEffects = true ↔ ∃ x ∈ e.nodes, x.isEffect = true := by
  induction e using forall_of_children with
  | h e ih =>
    rw [hasEffects_eq, nodes_eq_cons, Bool.or_eq_true, List.any_eq_true]
    constructor
    · rintro (h | ⟨c, hc, h⟩)
      · exact ⟨e, List.mem_cons_self, h⟩
      · obtain ⟨x, hx, h⟩ := (ih c hc).mp h
        exact ⟨x, List.mem_cons_of_mem _ (List.mem_flatMap.mpr ⟨c, hc, hx⟩), h⟩
    · rintro ⟨x, hx, h⟩
      rcases List.mem_cons.mp hx with rfl | hx
      · exact Or.inl h
      · obtain ⟨c, hc, hx⟩ := List.mem_flatMap.mp hx
        exact Or.inr ⟨c, hc, (ih c hc).mpr ⟨x, hx, h⟩⟩

end Expr

/-! ### Putting back what was read -/

namespace Value

variable {F : Type}

theorem setMember_lookup {name : String} {v : Value F} {members : List (String × Value F)}
    (h : members.lookup name = some v) : setMember name v members = members := by
  induction members with
  | nil => rfl
  | cons m members ih =>
    obtain ⟨n, w⟩ := m
    rw [List.lookup_cons] at h
    rw [setMember]
    cases hn : name == n with
    | true =>
      simp only [hn, Option.some.injEq] at h
      simp [h]
    | false =>
      simp only [hn] at h
      simp [ih h]

theorem foldl_set_of_mapM {ks : List Nat} {cs ds : List (Datum F)}
    (h : (ks.mapM fun k => cs[k]?) = some ds) :
    (ks.zip ds).foldl (fun cs (k, d) => cs.set k d) cs = cs := by
  induction ks generalizing ds with
  | nil => rfl
  | cons k ks ih =>
    simp only [List.mapM_cons, Option.bind_eq_bind, Option.bind_eq_some_iff, Option.pure_def,
      Option.some.injEq] at h
    obtain ⟨d, hd, ds, hds, rfl⟩ := h
    obtain ⟨hk, rfl⟩ := List.getElem?_eq_some_iff.mp hd
    rw [List.zip_cons_cons, List.foldl_cons]
    dsimp only
    rw [List.set_getElem_self]
    exact ih hds

/-- Replacing a part by itself changes nothing. -/
theorem replace?_of_select? {sel : Selector} {part whole : Value F}
    (h : whole.select? sel = some part) : replace? sel part whole = some whole := by
  unfold select? at h
  split at h
  · exact congrArg (some ∘ Value.record) (setMember_lookup h)
  · obtain ⟨hi, rfl⟩ := List.getElem?_eq_some_iff.mp h
    simp [replace?]
  · obtain ⟨c, hc, rfl⟩ := Option.map_eq_some_iff.mp h
    obtain ⟨hi, rfl⟩ := List.getElem?_eq_some_iff.mp hc
    simp [replace?]
  · rename_i rows i cs
    split at h
    · rename_i hle
      obtain rfl := Option.some.inj h
      rw [replace?, if_pos hle, Datum.column, ← List.drop_drop, List.take_append_drop,
        List.take_append_drop]
    · cases h
  · obtain ⟨ds, hds, rfl⟩ := Option.map_eq_some_iff.mp h
    exact congrArg (some ∘ Value.data) (foldl_set_of_mapM hds)
  · cases h

/-- **Putting back what was read changes nothing.** -/
theorem write?_of_read? {path : List Selector} {v whole : Value F} (h : read? path whole = some v) :
    write? v path whole = some whole := by
  induction path generalizing whole with
  | nil => exact h.symm
  | cons s path ih =>
    obtain ⟨part, hpart, h⟩ := Option.bind_eq_some_iff.mp h
    simp only [write?, hpart, Option.bind_eq_bind, Option.bind_some, ih h]
    exact replace?_of_select? hpart

end Value

/-! ### Computations that change nothing -/

namespace Eval

variable {F α β : Type} {x : Eval F α}

/-- A computation leaves the variables as they are. -/
def Keeps (x : Eval F α) : Prop := ∀ σ a σ', x σ = some (a, σ') → σ' = σ

theorem Keeps.read (p : Place) : Keeps (Eval.read p : Eval F (Value F)) := by
  intro σ a σ' h
  obtain ⟨b, -, h⟩ := Option.map_eq_some_iff.mp h
  cases h
  rfl

/-- Putting back what was read is reading. -/
theorem read_write (p : Place) :
    (read p >>= fun v => write p v >>= fun _ => pure v : Eval F (Value F)) = read p := by
  funext σ
  change ((Value.read? p.path (σ p.root)).map fun v => (v, σ)) >>= _ = _
  cases h : Value.read? p.path (σ p.root) with
  | none => simp [read, h]
  | some v =>
    have hstore : (fun x => if x = p.root then σ p.root else σ x) = σ := by
      funext x
      split
      · rename_i hx
        rw [hx]
      · rfl
    change ((Value.write? v p.path (σ p.root)).map _ >>= _) = _
    rw [Value.write?_of_read? h, read, h]
    change some (v, fun x => if x = p.root then σ p.root else σ x) = some (v, σ)
    rw [hstore]

end Eval

namespace Machine

variable {es : List Expr} {note : Note}

open Eval

variable {F : Type} {Γ : Environment} {m : Machine F Γ} {version : Version}

/-- Built-in functions write to their output arguments only: those without outputs leave the variables
as they are. -/
def WritesOutputsOnly (m : Machine F Γ) (version : Version) : Prop :=
  ∀ name types args, Builtin.hasOutput version name types = false →
    Keeps (m.call (.builtin name) types args)

theorem sequenced_keeps : Sequenced (F := F) Keeps where
  ofOption := by
    intro α o σ a σ' h
    obtain ⟨b, -, h⟩ := Option.map_eq_some_iff.mp h
    cases h
    rfl
  bind := by
    intro α β x f hx hf σ b σ' h
    obtain ⟨⟨a, σ₁⟩, hx', hf'⟩ := Option.bind_eq_some_iff.mp h
    rw [hf a σ₁ b σ' hf', hx σ a σ₁ hx']

/-- **An expression that writes to nothing leaves the variables as they are**, whether it is evaluated
or found as a place. -/
theorem keeps_of_isWrite (hm : m.WritesOutputsOnly version) {e : Expr}
    (h : ∀ x ∈ e.nodes, x.isWrite version = false) : Keeps (m.eval e) ∧ Keeps (m.evalPlace e) := by
  refine sequenced_keeps.eval fun x hx => ?_
  obtain ⟨heffect, houtput⟩ := Bool.or_eq_false_iff.mp (h x hx)
  cases x with
  | var note name => exact .read _
  | unary note op a => exact heffect
  | assign note op a b => cases heffect
  | call note callee args =>
    cases callee with
    | user name => cases heffect
    | constructor ty => trivial
    | builtin name => exact fun vs => hm name _ vs houtput
  | _ => trivial

/-! ### Statements that are removed -/

/-- An assignment that joins its target with a neutral value only reads the target. -/
theorem agree_assign_neutral {op : ArithOp} {a b : Expr} {u : Scalar → Datum F}
    (ht : Γ.Typed (.assign note (.joined op) a b)) (hop : op.IsField)
    (hu : ∀ x : Datum F, x.scalar ≠ .bool → Datum.arith? m.floats op x (u x.scalar) = some x)
    (hb : m.EvalsTo b u) (hmul : op = .mul → a.ty.shape.MultipliesAlike b.ty.shape) :
    Γ.Agree (·.HasType Γ.structs a.ty) (m.eval (.assign note (.joined op) a b))
      (m.evalPlace a >>= Eval.read) := by
  obtain ⟨⟨-, -, hplace, htakes⟩, hchildren⟩ := typed_iff.mp ht
  have ha := alike_of_typed m (hchildren a (by simp [Expr.children]))
  have hres : (BinaryOp.arith op).result? a.ty b.ty = some a.ty := beq_iff_eq.mp htakes
  obtain ⟨s, shape, hs, hv⟩ := hb
  rw [hs] at hres hmul
  rw [eval_assign_joined, hv, hs]
  refine (ha.place hplace).bind fun p hp => ?_
  suffices Γ.Agree (·.HasType Γ.structs a.ty) _
      (read p >>= fun v => write p v >>= fun _ => pure v) by rwa [read_write] at this
  refine (Environment.Agree.read hp).bind fun old hold => ?_
  have hoperate : m.operate (.arith op) a.ty ⟨.value s shape, none⟩ old
      (.data (List.replicate shape.components (u s))) = some old :=
    Value.arith?_neutral_right hop hu hres hmul hold
  rw [pure_bind, hoperate]
  change Γ.Agree _ (write p old >>= fun _ => pure old) _
  exact (Environment.Agree.write hp hold).bind fun _ _ =>
    .pure (P := fun v : Value F => v.HasType Γ.structs a.ty) hold

/-- What a rule removes is an assignment that only reads its target. -/
theorem agree_of_removes {rule : Rule} {op : AssignOp} {a b : Expr}
    (h : rule.removes (.assign note op a b) = true) (ht : Γ.Typed (.assign note op a b)) :
    Γ.Agree (·.HasType Γ.structs a.ty) (m.eval (.assign note op a b))
      (m.evalPlace a >>= Eval.read) := by
  have hb : Γ.Typed b := typed_of_mem_children ht (by simp [Expr.children])
  unfold Rule.removes at h
  split at h
  · rename_i heq
    cases heq
    exact agree_assign_neutral ht (Or.inl rfl) (fun x hx => (Datum.arith?_zero hx).1)
      (eval_of_isZero hb (Bool.and_eq_true_iff.mp h).1) (fun h => by cases h)
  · rename_i heq
    cases heq
    exact agree_assign_neutral ht (Or.inr (Or.inl rfl)) (fun x hx => (Datum.arith?_zero hx).2.2.1)
      (eval_of_isZero hb (Bool.and_eq_true_iff.mp h).1) (fun h => by cases h)
  · rename_i heq
    cases heq
    obtain ⟨hone, hkeeps⟩ := Bool.and_eq_true_iff.mp h
    obtain ⟨hmatrix, hv⟩ := eval_of_isOne (m := m) hb hone
    obtain ⟨s, shape, hs, -⟩ := id hv
    exact agree_assign_neutral ht (Or.inr (Or.inr (Or.inl rfl)))
      (fun x hx => (Datum.arith?_one hx).1) hv fun _ =>
        (Rule.multipliesAlike hmatrix (Bool.and_eq_true_iff.mp hkeeps).2
          (by rw [hs])).symm
  · rename_i heq
    cases heq
    exact agree_assign_neutral ht (Or.inr (Or.inr (Or.inr rfl)))
      (fun x hx => (Datum.arith?_one hx).2.2) (eval_of_isOne hb (Bool.and_eq_true_iff.mp h).1).2
      (fun h => by cases h)
  · cases h

end Machine

namespace Expr

variable {version : Version}

/-- A spelled-out constant is made of literals and constructors. -/
theorem isWrite_of_literalComponents? {e : Expr} {cs : List Constant}
    (h : e.literalComponents? = some cs) : ∀ x ∈ e.nodes, x.isWrite version = false := by
  induction e using forall_of_children generalizing cs with
  | h e ih =>
    rw [forall_mem_nodes]
    cases e with
    | lit note value => exact ⟨rfl, nofun⟩
    | call note callee args =>
      cases callee with
      | constructor ty =>
        obtain ⟨-, -, -, -, hall⟩ := literalComponents?_constructor h
        refine ⟨rfl, fun c hc => ?_⟩
        obtain ⟨cs', hcs', -⟩ := exists_of_literalComponentsAll? (p := fun _ => true) hall (by simp) hc
        exact ih c hc hcs'
      | builtin name | user name => cases h
    | _ => cases h

theorem isWrite_of_allComponents {p : Constant → Bool} {e : Expr} (h : e.allComponents p = true) :
    ∀ x ∈ e.nodes, x.isWrite version = false := by
  rw [allComponents, Option.any_eq_true] at h
  obtain ⟨cs, hcs, -⟩ := h
  exact isWrite_of_literalComponents? hcs

end Expr

/-- A rule removes an assignment of a spelled-out constant to a target without effects. -/
theorem Rule.of_removes {rule : Rule} {note : Note} {op : AssignOp} {target value : Expr}
    (h : rule.removes (.assign note op target value) = true) :
    target.hasEffects = false ∧ ∃ p, value.allComponents p = true := by
  have hkeeps : keepsTarget target value = true → target.hasEffects = false := by
    simp only [keepsTarget, Bool.and_eq_true, Bool.not_eq_true']
    exact fun h => h.1.1
  have hzero : (value.isZero && keepsTarget target value) = true →
      target.hasEffects = false ∧ ∃ p, value.allComponents p = true := by
    simp only [Expr.isZero, Bool.and_eq_true]
    exact fun h => ⟨hkeeps h.2, _, h.1.2⟩
  have hone : (value.isOne && keepsTarget target value) = true →
      target.hasEffects = false ∧ ∃ p, value.allComponents p = true := by
    simp only [Expr.isOne, Bool.and_eq_true]
    exact fun h => ⟨hkeeps h.2, _, h.1.2⟩
  unfold removes at h
  split at h
  · rename_i heq
    cases heq
    exact hzero h
  · rename_i heq
    cases heq
    exact hzero h
  · rename_i heq
    cases heq
    exact hone h
  · rename_i heq
    cases heq
    exact hone h
  · cases h

/-! ### A statement that calls a function -/

namespace Machine

/-- `v[int(abs(1.))] += 0.`, as a statement that is removed. -/
def indexedByCall : Expr :=
  let at' (t : Ty) : Note := ⟨t, .empty, ⟨1, 1, 0⟩⟩
  .assign (at' .float) (.joined .add)
    (.index (at' .float) (.var (at' (Ty.float.withArray (some 3))) "v")
      (.call (at' .int) (.constructor .int)
        [.call (at' .float) (.builtin "abs") [.lit (at' .float) (.float .one)]]))
    (.lit (at' .float) (.float .zero))

/-- One array of floating-point numbers, and one function. -/
def oneArray : Environment where
  typeOf? x := if x = "v" then some (Ty.float.withArray (some 3)) else none
  structs := []
  callType? callee types :=
    if callee = .builtin "abs" ∧ types = [.float] then some ⟨.float, [false]⟩ else none

/-- What a function gives back that only passes its argument on. -/
def passOn {F : Type} : List (Argument F) → Store F → Option (Value F × Store F)
  | [.value v], σ => some (v, σ)
  | _, _ => none

theorem passOn_typed {F : Type} {callee : Callee} {types : List Ty} {s : CallType}
    {args : List (Argument F)} {σ σ' : Store F} {v : Value F}
    (hs : oneArray.callType? callee types = some s)
    (hargs : List.Forall₂ oneArray.ArgumentTyped args types) (hσ : oneArray.StoreTyped σ)
    (h : passOn args σ = some (v, σ')) : v.HasType oneArray.structs s.result ∧ oneArray.StoreTyped σ' := by
  unfold passOn at h
  split at h
  · cases h
    simp only [oneArray] at hs
    split at hs
    · rename_i hcall
      cases hs
      rw [hcall.2] at hargs
      cases hargs with
      | cons hv _ => exact ⟨hv, hσ⟩
    · cases hs
  · cases h

/-- Exact arithmetic with a function that passes its argument on. -/
def passing : Machine ℚ oneArray where
  floats := .rational
  call _ _ := passOn
  call_typed := passOn_typed

/-- An array of ones. -/
def ones : Store ℚ := fun _ => .array (List.replicate 3 (.data [.float 1]))

theorem storeTyped_ones : oneArray.StoreTyped ones := by
  intro x t hx
  simp only [oneArray] at hx
  split at hx
  · cases hx
    refine .array rfl fun v hv => ?_
    rw [List.eq_of_mem_replicate hv]
    exact .data rfl fun d hd => by rw [List.mem_singleton.mp hd]; rfl
  · cases hx

theorem writesOutputsOnly_passing (version : Version) : passing.WritesOutputsOnly version := by
  intro name types args _ σ v σ' h
  change passOn args σ = some (v, σ') at h
  unfold passOn at h
  split at h
  · cases h
    rfl
  · cases h

end Machine

/-! ### What is not written -/

namespace Expr

open Machine

theorem forall_isEffect_iff (e : Expr) :
    e.hasEffects = false ↔ ∀ x ∈ e.nodes, x.isEffect = false := by
  rw [← Bool.not_eq_true, hasEffects_iff]
  simp

theorem forall_isWrite_iff (version : Version) {e : Expr} (h : e.hasEffects = false) :
    (∀ x ∈ e.nodes, x.isWrite version = false) ↔ ∀ x ∈ e.nodes, x.isOutputCall version = false := by
  have heffect := e.forall_isEffect_iff.mp h
  constructor
  · exact fun h x hx => (Bool.or_eq_false_iff.mp (h x hx)).2
  · exact fun h x hx => Bool.or_eq_false_iff.mpr ⟨heffect x hx, h x hx⟩

/-- **An expression without effects assigns, increments and decrements nothing and calls no user's
function; it writes to no variable exactly if it calls no built-in function that does.**  The same
holds of the target of a statement that a rule removes; where it calls none, the statement leaves all
variables as they are. -/
theorem writes_nothing_iff (version : Version) :
    (∀ e : Expr, (e.hasEffects = false ↔ ∀ x ∈ e.nodes, x.isEffect = false) ∧
      (e.hasEffects = false → ((∀ x ∈ e.nodes, x.isWrite version = false) ↔
        ∀ x ∈ e.nodes, x.isOutputCall version = false))) ∧
    ∀ (rule : Rule) (note : Note) (op : AssignOp) (target value : Expr),
      rule.removes (.assign note op target value) = true →
      ((∀ x ∈ target.nodes ++ value.nodes, x.isWrite version = false) ↔
        ∀ x ∈ target.nodes, x.isOutputCall version = false) ∧
      ((∀ x ∈ target.nodes, x.isOutputCall version = false) →
        ∀ (F : Type) (Γ : Environment) (m : Machine F Γ), m.WritesOutputsOnly version →
          Γ.Typed (.assign note op target value) → ∀ σ v σ', Γ.StoreTyped σ →
            m.eval (.assign note op target value) σ = some (v, σ') → σ' = σ) := by
  refine ⟨fun e => ⟨e.forall_isEffect_iff, e.forall_isWrite_iff version⟩, ?_⟩
  intro rule note op target value h
  obtain ⟨htarget, p, hvalue⟩ := Rule.of_removes h
  refine ⟨?_, fun houtput F Γ m hm ht σ v σ' hσ heval => ?_⟩
  · rw [← target.forall_isWrite_iff version htarget]
    simp only [List.mem_append, or_imp, forall_and]
    exact and_iff_left (isWrite_of_allComponents hvalue)
  · have hkeeps := (Machine.keeps_of_isWrite hm
      ((target.forall_isWrite_iff version htarget).mpr houtput)).2
    rw [((Machine.agree_of_removes h ht) σ hσ).1] at heval
    exact Machine.sequenced_keeps.bind hkeeps (fun p => .read p) σ v σ' heval

theorem writes_nothing_iff_indexedByCall :
    Rule.additiveIdentity.removes indexedByCall = true ∧
      ∃ v σ', passing.eval indexedByCall ones = some (v, σ') ∧ σ' = ones := by
  have hremoves : Rule.additiveIdentity.removes indexedByCall = true := by decide
  have hruns : ∃ v σ', passing.eval indexedByCall ones = some (v, σ') :=
    ⟨_, _, by with_unfolding_all rfl⟩
  obtain ⟨v, σ', heval⟩ := hruns
  refine ⟨hremoves, v, σ', heval, ?_⟩
  exact ((writes_nothing_iff .es300).2 _ _ _ _ _ hremoves).2 (by decide +kernel) ℚ oneArray passing
    (writesOutputsOnly_passing .es300) (by decide) ones v σ' storeTyped_ones heval

end Expr

/-- Whether a statement is removed although finding its target writes to a variable. -/
def Stmt.losesOutput (version : Version) : Stmt → Bool
  | .expr _ (.assign note op target value) =>
    Rule.additiveIdentity.removes (.assign note op target value) && !target.hasEffects &&
      target.nodes.any (·.isOutputCall version)
  | _ => false

theorem Stmt.of_losesOutput {version : Version} {s : Stmt} (h : s.losesOutput version = true) :
    ∃ loc note op target value, s = .expr loc (.assign note op target value) ∧
      Rule.additiveIdentity.removes (.assign note op target value) = true ∧
      target.hasEffects = false ∧ ∃ x ∈ target.nodes, x.isOutputCall version = true := by
  unfold losesOutput at h
  split at h
  · simp only [Bool.and_eq_true, Bool.not_eq_true', List.any_eq_true] at h
    exact ⟨_, _, _, _, _, rfl, h.1.1, h.1.2, h.2⟩
  · cases h

/-- The built-in function `modf` writes to its second argument, and its call in an index counts as an
expression without effects. -/
theorem Shader.exists_removed_output : ∃ s : Shader, s.Accepted
    ("#version 300 es\nprecision mediump float;void main()\x7bfloat y;float v[3];" ++
      "v[int(modf(1.5,y))]+=0.;\x7d") .fragment .standard ∧
    ∃ f ∈ s.functions, ∃ loc note op target value,
      Stmt.expr loc (.assign note op target value) ∈ f.body ∧
      Rule.additiveIdentity.removes (.assign note op target value) = true ∧
      target.hasEffects = false ∧ ∃ x ∈ target.nodes, x.isOutputCall s.version = true := by
  refine (exists_accepted (P := fun s => s.functions.any fun f =>
    f.body.any (·.losesOutput s.version)) (by decide +kernel)).imp fun s hs => ⟨hs.1, ?_⟩
  obtain ⟨f, hf, hloses⟩ := List.any_eq_true.mp hs.2
  obtain ⟨x, hx, hloses⟩ := List.any_eq_true.mp hloses
  obtain ⟨loc, note, op, target, value, rfl, hremoved⟩ := Stmt.of_losesOutput hloses
  exact ⟨f, hf, loc, note, op, target, value, hx, hremoved⟩

end GlslEs
