import GlslEs.Constant.Eval
import GlslEs.Proofs.Resolve.Constant
import GlslEs.Proofs.Semantics.Sound
import Mathlib.Algebra.Order.Ring.Nat

/-!
# Values of constant expressions

Evaluation works on lists of components: it finds out from their lengths alone which side of an operation is
used with every component of the other one, and what a constructor takes.  The rules for types say the same
of shapes, so where an expression has a type, its value is one of that type.

* `Ty.Fits`: components make up a value of a type.
* `Expr.fits_of_eval?`: **the value of an expression with a type has that type**.
* `Expr.WellTyped`: every node has the type of its rule, and every constructor takes its arguments.
* `Expr.WellTyped.eval?_typed`: **evaluation keeps types**, and constructors of scalars and vectors have values.
-/

namespace GlslEs

variable {op : BinaryOp} {target : Ty} {ts : List Ty}

/-! ### What has a value -/

namespace Expr

variable {lookup : String → Option (List Constant)} {vs : List Constant}

theorem evalLast?_eq (lookup : String → Option (List Constant)) (es : List Expr) :
    evalLast? lookup es = es.getLast?.bind (eval? lookup) := by
  induction es with
  | nil => rfl
  | cons e es ih =>
    cases es with
    | nil => rfl
    | cons e' es =>
      rw [evalLast?, ih, List.getLast?_cons_cons]
      exact List.cons_ne_nil e' es

theorem evalAll?_eq_some_iff {es : List Expr} : evalAll? lookup es = some vs ↔
    (∀ e ∈ es, (e.eval? lookup).isSome = true) ∧ es.flatMap (fun e => (e.eval? lookup).getD []) = vs := by
  induction es generalizing vs with
  | nil => simp [evalAll?]
  | cons e es ih =>
    rw [evalAll?, List.forall_mem_cons, List.flatMap_cons]
    cases he : e.eval? lookup with
    | none => simp
    | some ws =>
      cases hes : evalAll? lookup es with
      | none =>
        have hnone : ¬ ∀ e ∈ es, (e.eval? lookup).isSome = true := fun hall => by
          rw [ih.mpr ⟨hall, rfl⟩] at hes
          cases hes
        simp [hnone]
      | some us =>
        obtain ⟨hall, hus⟩ := ih.mp hes
        simp [hus, show (∀ x ∈ es, (x.eval? lookup).isSome = true) = True from eq_true hall]

end Expr

/-! ### Components -/

/-- The kind of the components of an operation whose left side has components of a kind. -/
def BinaryOp.scalar (op : BinaryOp) (left : Scalar) : Scalar :=
  match op with
  | .arith _ => left
  | .compare _ | .logic _ => .bool

namespace Constant

theorem scalar_convert (s : Scalar) (c : Constant) : (c.convert s).scalar = s := by
  cases c <;> cases s <;> rfl

theorem scalar_unary? {op : UnaryOp} {c d : Constant} (h : unary? op c = some d) : d.scalar = c.scalar := by
  unfold unary? at h
  split at h <;> first | cases h; rfl | cases h

theorem scalar_shift? {left : Bool} {c d r : Constant} (h : shift? left c d = some r) :
    r.scalar = c.scalar := by
  unfold shift? at h
  split at h <;> first | cases h; rfl | cases h

theorem scalar_binary? {op : BinaryOp} {c d r : Constant} (h : binary? op c d = some r) :
    r.scalar = op.scalar c.scalar := by
  unfold binary? at h
  split at h
  · exact scalar_shift? h
  · exact scalar_shift? h
  · split at h
    case h_4 => cases h
    all_goals
      obtain ⟨x, -, rfl⟩ := Option.map_eq_some_iff.mp h
      rfl
  · obtain ⟨x, -, rfl⟩ := Option.map_eq_some_iff.mp h
    rfl
  · split at h
    · cases h
      rfl
    · cases h

end Constant

theorem Ty.isError_of_isVector {t : Ty} (h : t.isVector = true) : t.isError = false := by
  obtain ⟨base, array⟩ := t
  cases base with
  | error => cases array <;> cases h
  | _ => rfl

theorem Ty.isError_of_swizzled {t : Ty} {ks : List Nat} (h : (t.swizzled ks).isError = false) :
    t.isError = false := by
  unfold swizzled at h
  split at h
  · rfl
  · cases h

namespace Expr

/-- Components are used one by one, or a single one with each of the other side. -/
theorem of_evalBinary? {op : BinaryOp} {left right vs : List Constant} (hop : op.isEquality = false)
    (h : evalBinary? op left right = some vs) :
    vs.length = (if left.length = 1 then right.length else left.length) ∧
      ∀ v ∈ vs, ∃ x ∈ left, v.scalar = op.scalar x.scalar := by
  unfold evalBinary? at h
  rw [hop, if_neg Bool.false_ne_true] at h
  split at h
  · rename_i x _ _
    refine ⟨by simpa using length_of_mapM h, fun v hv => ?_⟩
    obtain ⟨y, -, hy⟩ := exists_of_mem_mapM h hv
    exact ⟨x, List.mem_singleton_self x, Constant.scalar_binary? hy⟩
  · have hlength := length_of_mapM h
    refine ⟨by split <;> simp_all, fun v hv => ?_⟩
    obtain ⟨x, hx, hxy⟩ := exists_of_mem_mapM h hv
    exact ⟨x, hx, Constant.scalar_binary? hxy⟩
  · split at h
    · rename_i heq
      have hlength := length_of_mapM h
      rw [List.length_zip, ← heq, Nat.min_self] at hlength
      refine ⟨by split <;> simp_all, fun v hv => ?_⟩
      obtain ⟨⟨x, y⟩, hxy, hv⟩ := exists_of_mem_mapM h hv
      exact ⟨x, (List.of_mem_zip hxy).1, Constant.scalar_binary? hv⟩
    · cases h

/-- Equality gives one truth value. -/
theorem of_evalBinary?_equality {op : BinaryOp} {left right vs : List Constant} (hop : op.isEquality = true)
    (h : evalBinary? op left right = some vs) : ∃ b, vs = [.bool b] := by
  unfold evalBinary? at h
  rw [hop, if_pos rfl] at h
  split at h
  · exact ⟨_, (Option.some.inj h).symm⟩
  · cases h

end Expr

/-! ### Types of operations -/

namespace Ty

variable {shape : Shape} {array : Option Nat}

/-- A type of the language: vectors and matrices have two rows or columns or more, and matrices are made of
floating-point numbers. -/
def Proper (t : Ty) : Prop :=
  match t.base with
  | .value _ (.vector k) => 2 ≤ k
  | .value s (.matrix columns rows) => s = .float ∧ 2 ≤ columns ∧ 2 ≤ rows
  | _ => True

instance (t : Ty) : Decidable t.Proper := by
  unfold Proper
  split <;> infer_instance

theorem Proper.components_pos {s : Scalar} (h : Proper ⟨.value s shape, array⟩) : 0 < shape.components := by
  cases shape with
  | scalar => exact Nat.one_pos
  | vector k => exact Nat.lt_of_lt_of_le Nat.two_pos h
  | matrix columns rows => exact Nat.mul_pos (by have := h.2.1; omega) (by have := h.2.2; omega)

/-- A single component is a scalar. -/
theorem Proper.components_eq_one_iff {s : Scalar} (h : Proper ⟨.value s shape, array⟩) :
    shape.components = 1 ↔ shape = .scalar := by
  cases shape with
  | scalar => exact ⟨fun _ => rfl, fun _ => rfl⟩
  | vector k =>
    have hk : 2 ≤ k := h
    simp only [Shape.components, reduceCtorEq, iff_false]
    omega
  | matrix columns rows =>
    have hproduct := Nat.mul_le_mul h.2.1 h.2.2
    simp only [Shape.components, reduceCtorEq, iff_false]
    omega

theorem proper_vector (s : Scalar) (k : Nat) : (vector s k).Proper := by
  unfold vector Shape.ofSize
  split
  · trivial
  · exact Nat.lt_of_not_le (by assumption)

end Ty

theorem BinaryOp.isError_of_result? {t t' r : Ty} (h : op.result? t t' = some r) :
    t.isError = false ∧ t'.isError = false := by
  unfold result? at h
  split at h
  · cases h
  · rename_i hcond
    simpa using hcond

theorem Shape.components_larger (a b : Shape) :
    (a.larger b).components = if a = .scalar then b.components else a.components := by
  unfold larger
  split
  · rename_i h
    rw [if_pos h.2]
  · rename_i h
    split
    · rename_i ha
      rw [not_not.mp fun hne => h ⟨hne, ha⟩]
    · rfl

/-- Operations on values other than equality and products of matrices work component by component. -/
theorem BinaryOp.eq_of_result? (hop : op.isEquality = false) {s s' : Scalar} {a b : Shape}
    (hmatrix : op = .arith .mul → Ty.isMatrix ⟨.value s a, none⟩ = false ∧ Ty.isMatrix ⟨.value s' b, none⟩ = false)
    {t : Ty} (h : op.result? ⟨.value s a, none⟩ ⟨.value s' b, none⟩ = some t) :
    t = ⟨.value (op.scalar s) (a.larger b), none⟩ ∧
      (a.larger b = .scalar ∨ op.scalar s = s ∧ (s' = s ∨ a.larger b = a)) := by
  cases op with
  | compare op =>
    obtain ⟨rfl, hsame, hscalar⟩ := result?_compare h
    cases hsame
    have ha : a = .scalar := beq_iff_eq.mp (Bool.and_eq_true_iff.mp (hscalar hop)).2
    exact ⟨by rw [ha]; rfl, .inl (by rw [ha]; rfl)⟩
  | logic op =>
    obtain ⟨rfl, hl, hr⟩ := result?_logic h
    cases hl
    cases hr
    exact ⟨rfl, .inl rfl⟩
  | arith op =>
    by_cases hmul : op = .mul
    · subst hmul
      obtain ⟨rfl, -⟩ := Ty.product?_value h
      obtain ⟨hleft, hright⟩ := hmatrix rfl
      have hl : ∀ c r, a ≠ .matrix c r := by
        rintro c r rfl
        cases hleft
      have hr : ∀ c r, b ≠ .matrix c r := by
        rintro c r rfl
        cases hright
      exact ⟨Ty.eq_of_broadcast? (Ty.broadcast?_of_product? (fun _ c r _ => hr c r) (fun c r _ h _ => hl c r h)
        (fun c r _ _ h _ => hl c r h) h), .inr ⟨rfl, .inl rfl⟩⟩
    · obtain ⟨ht, hkind⟩ := result?_arith hmul h
      exact ⟨ht, .inr ⟨rfl, hkind⟩⟩

/-- What has a type has it from a rule. -/
theorem Ty.eq_some_of_getD {o : Option Ty} {t : Ty} (h : o.getD .error = t) (ht : t.isError = false) :
    o = some t := by
  cases o with
  | none =>
    rw [← h] at ht
    cases ht
  | some t' => exact congrArg some h

/-! ### Constructors -/

theorem Ty.components_le_of_suppliedProblem? {needed : Nat} :
    ∀ {supplied position : Nat}, suppliedProblem? target needed supplied position ts = none →
      needed ≤ supplied + (ts.map Ty.components).sum := by
  induction ts with
  | nil =>
    intro supplied position h
    rw [suppliedProblem?] at h
    split at h
    · cases h
    · simp; omega
  | cons t ts ih =>
    intro supplied position h
    rw [suppliedProblem?] at h
    split at h
    · cases h
    · have := ih h
      rw [List.map_cons, List.sum_cons]
      omega

/-- Unless a constructor has one scalar for an argument, or makes a matrix of a matrix, its arguments have
together as many components as it needs. -/
theorem Ty.components_le_of_valueProblem? (h : valueProblem? target ts = none)
    (hpos : ∀ t ∈ ts, 0 < t.components)
    (hone : ∀ t, ts = [t] → t.isScalar = false ∧ (target.isMatrix && t.isMatrix) = false) :
    target.components ≤ (ts.map Ty.components).sum := by
  unfold valueProblem? at h
  split at h
  · cases h
  · split at h
    · cases h
    · split at h
      · rename_i hs
        have hsingle : target.components = 1 := by
          rw [components, beq_iff_eq.mp (Bool.and_eq_true_iff.mp hs).2]
          rfl
        split at h
        · rename_i hlen
          obtain ⟨t, rfl⟩ := List.length_eq_one_iff.mp hlen
          have := hpos t List.mem_cons_self
          simp only [List.map_cons, List.map_nil, List.sum_cons, List.sum_nil]
          omega
        · cases h
      · split at h
        · rename_i hargs
          simp only [Bool.and_eq_true, decide_eq_true_eq] at hargs
          obtain ⟨t, rfl⟩ := List.length_eq_one_iff.mp hargs.1
          simp [hone t rfl] at hargs
        · split at h
          · cases h
          · have := components_le_of_suppliedProblem? h
            omega

/-- A constructor of neither arrays nor structures makes scalars, vectors and matrices. -/
theorem Ty.value_of_constructorProblem? {ty : Ty} {args members : List Ty}
    (h : ty.constructorProblem? args members = none) (herror : args.any isError = false)
    (harray : ty.isArray = false) (hstruct : ty.isStruct = false) :
    ∃ s shape, ty = ⟨.value s shape, none⟩ ∧ args ≠ [] ∧ valueProblem? ty args = none := by
  rw [constructorProblem?, herror, if_neg Bool.false_ne_true] at h
  split at h
  · cases h
  · rename_i hargs
    obtain ⟨base, array⟩ := ty
    cases array with
    | some size => cases harray
    | none =>
      cases base with
      | value s shape => exact ⟨s, shape, rfl, by simpa using hargs, h⟩
      | struct name => cases hstruct
      | void | sampler s | error => cases h

/-- What a constructor of a scalar or vector makes of components. -/
theorem Expr.exists_evalConstructor? {s : Scalar} {shape : Shape} {count : Nat} {vs : List Constant}
    (hmatrix : Ty.isMatrix ⟨.value s shape, none⟩ = false) (hvs : vs ≠ [])
    (h : count = 1 ∧ vs.length = 1 ∨ shape.components ≤ vs.length) :
    ∃ ws, evalConstructor? ⟨.value s shape, none⟩ count vs = some ws ∧
      ∀ w ∈ ws, ∃ v ∈ vs, w = v.convert s := by
  obtain ⟨x, rest, rfl⟩ := List.exists_cons_of_ne_nil hvs
  rw [evalConstructor?, hmatrix, if_neg Bool.false_ne_true]
  dsimp only
  split
  · exact ⟨_, rfl, fun w hw => ⟨x, List.mem_cons_self, (List.mem_replicate.mp hw).2⟩⟩
  · rename_i hcond
    have hle : shape.components ≤ (x :: rest).length := by
      rcases h with ⟨hcount, hlength⟩ | h
      · simp_all
      · exact h
    rw [if_pos hle]
    refine ⟨_, rfl, fun w hw => ?_⟩
    obtain ⟨v, hv, rfl⟩ := List.mem_map.mp hw
    exact ⟨v, List.mem_of_mem_take hv, rfl⟩

/-! ### Values of types -/

/-- A list of components is a value of a type: there are as many as the type has, of its kind. -/
def Ty.Fits (t : Ty) (vs : List Constant) : Prop :=
  t.Proper ∧ ∃ s shape, t = ⟨.value s shape, none⟩ ∧ vs.length = shape.components ∧ ∀ v ∈ vs, v.scalar = s

namespace Ty.Fits

variable {t : Ty} {vs : List Constant} {ws : List Constant}

theorem ne_nil (h : t.Fits vs) : vs ≠ [] := by
  obtain ⟨hproper, s, shape, rfl, hlength, -⟩ := h
  have := hproper.components_pos
  rintro rfl
  simp_all

theorem singleton {c : Constant} {s : Scalar} (hc : c.scalar = s) : (Ty.ofScalar s).Fits [c] :=
  ⟨trivial, s, .scalar, rfl, rfl, by simpa using hc⟩

theorem unary (h : t.Fits vs) {op : UnaryOp} (hws : vs.mapM (Constant.unary? op) = some ws) :
    t.Fits ws := by
  obtain ⟨hproper, s, shape, rfl, hlength, hscalar⟩ := h
  refine ⟨hproper, s, shape, rfl, (length_of_mapM hws).trans hlength, fun w hw => ?_⟩
  obtain ⟨v, hv, hvw⟩ := exists_of_mem_mapM hws hw
  rw [Constant.scalar_unary? hvw, hscalar v hv]

theorem binary {t' r : Ty} {us : List Constant} (h : t.Fits vs) (h' : t'.Fits us) {op : BinaryOp}
    (hmatrix : op = .arith .mul → t.isMatrix = false ∧ t'.isMatrix = false) (hresult : op.result? t t' = some r)
    (hws : Expr.evalBinary? op vs us = some ws) : r.Fits ws := by
  cases hop : op.isEquality with
  | true =>
    obtain ⟨b, rfl⟩ := Expr.of_evalBinary?_equality hop hws
    cases op with
    | compare op =>
      obtain ⟨rfl, -⟩ := BinaryOp.result?_compare hresult
      exact .singleton rfl
    | arith | logic => cases hop
  | false =>
    obtain ⟨hproper, s, shape, rfl, hlength, hscalar⟩ := h
    obtain ⟨hproper', s', shape', rfl, hlength', -⟩ := h'
    obtain ⟨hspan, hall⟩ := Expr.of_evalBinary? hop hws
    obtain ⟨rfl, hkind⟩ := BinaryOp.eq_of_result? hop hmatrix hresult
    refine ⟨?_, _, _, rfl, ?_, fun w hw => ?_⟩
    · rcases hkind with hkind | ⟨hkind, rfl | hleft⟩
      · rw [hkind]
        trivial
      · rw [hkind, Shape.larger]
        split
        · exact hproper'
        · exact hproper
      · rwa [hkind, hleft]
    · rw [hspan, hlength, hlength', Shape.components_larger]
      simp only [hproper.components_eq_one_iff]
    · obtain ⟨v, hv, hvw⟩ := hall w hw
      rw [hvw, hscalar v hv]

theorem swizzle (h : t.Fits vs) {ks : List Nat} (hks : ks ≠ []) (hty : (t.swizzled ks).isError = false)
    (hws : ks.mapM (fun k => vs[k]?) = some ws) : (t.swizzled ks).Fits ws := by
  obtain ⟨-, s, shape, rfl, -, hscalar⟩ := h
  unfold swizzled at hty ⊢
  split at hty
  · rename_i heq
    cases heq
    split at hty
    · rename_i hin
      rw [if_pos hin]
      refine ⟨proper_vector _ _, s, .ofSize ks.length, rfl, ?_, fun w hw => ?_⟩
      · have := List.length_pos_iff.mpr hks
        rw [length_of_mapM hws, Shape.ofSize]
        split
        · exact Nat.le_antisymm (by assumption) this
        · rfl
      · obtain ⟨k, -, hk⟩ := exists_of_mem_mapM hws hw
        exact hscalar w (List.mem_of_getElem? hk)
    · cases hty
  · cases hty

theorem index (h : t.Fits vs) (hvector : t.isVector = true) {v : Constant} (hv : v ∈ vs) :
    (t.indexed?.getD .error).Fits [v] := by
  obtain ⟨-, s, shape, rfl, -, hscalar⟩ := h
  cases shape with
  | vector k => exact .singleton (hscalar v hv)
  | _ => cases hvector

theorem constructor (ht : t.Proper) {count : Nat}
    (h : Expr.evalConstructor? t count vs = some ws) : t.Fits ws := by
  unfold Expr.evalConstructor? at h
  split at h
  · rename_i s shape
    split at h
    · cases h
    · dsimp only at h
      split at h
      · cases h
      · split at h
        · cases h
          refine ⟨ht, s, shape, rfl, List.length_replicate, fun v hv => ?_⟩
          rw [(List.mem_replicate.mp hv).2]
          exact Constant.scalar_convert s _
        · split at h
          · rename_i hle
            cases h
            refine ⟨ht, s, shape, rfl, ?_, fun v hv => ?_⟩
            · rw [List.length_map]
              exact List.length_take_of_le hle
            · obtain ⟨c, -, rfl⟩ := List.mem_map.mp hv
              exact Constant.scalar_convert s c
          · cases h
  · cases h

end Ty.Fits

namespace Expr

variable {n : Names} {lookup : String → Option (List Constant)} {e : Expr}

/-- A node names components that are there: a constructor makes a type of the language, and a swizzle selects
something. -/
def NodeShaped : Expr → Prop
  | .call _ (.constructor ty) _ => ty.Proper
  | .swizzle _ _ _ components => components ≠ []
  | _ => True

/-- All nodes name components that are there. -/
def Shaped (e : Expr) : Prop := ∀ x ∈ e.nodes, x.NodeShaped

theorem shaped_iff : e.Shaped ↔ e.NodeShaped ∧ ∀ c ∈ e.children, c.Shaped := forall_mem_nodes

/-! ### Types that rules give -/

@[simp]
theorem ty_resolve_unary (note : Note) (op : UnaryOp) (a : Expr) :
    ((unary note op a).resolve n).ty = (op.result? (a.resolve n).ty).getD .error := by
  rw [resolve]
  rfl

@[simp]
theorem ty_resolve_binary (note : Note) (op : BinaryOp) (a b : Expr) :
    ((binary note op a b).resolve n).ty = (op.result? (a.resolve n).ty (b.resolve n).ty).getD .error := by
  rw [resolve]
  rfl

@[simp]
theorem ty_resolve_ternary (note : Note) (c a b : Expr) : ((ternary note c a b).resolve n).ty =
    if (a.resolve n).ty = (b.resolve n).ty then (a.resolve n).ty else .error := by
  rw [resolve]
  rfl

@[simp]
theorem ty_resolve_constructor (note : Note) (ty : Ty) (args : List Expr) :
    ((call note (.constructor ty) args).resolve n).ty =
      if ty.array = some 0 then ty.withArray (some args.length) else ty := by
  rw [resolve, resolveAll_eq_map]
  simp only [Names.resolveCall, List.length_map]
  rfl

@[simp]
theorem ty_resolve_swizzle (note : Note) (a : Expr) (set : SwizzleSet) (ks : List Nat) :
    ((swizzle note a set ks).resolve n).ty = (a.resolve n).ty.swizzled ks := by
  rw [resolve]
  rfl

@[simp]
theorem ty_resolve_index (note : Note) (a b : Expr) :
    ((index note a b).resolve n).ty = (a.resolve n).ty.indexed?.getD .error := by
  rw [resolve]
  rfl

@[simp]
theorem ty_resolve_seq (note : Note) (es : List Expr) :
    ((seq note es).resolve n).ty = (es.getLast?.map fun e => (e.resolve n).ty).getD .error := by
  rw [resolve, resolveAll_eq_map, List.getLast?_map, Option.map_map]
  rfl

/-- Every node has the type that its rule gives. -/
def Ruled (n : Names) (e : Expr) : Prop := ∀ x ∈ e.nodes, (x.resolve n).ty = x.ty

theorem ruled_iff : e.Ruled n ↔ (e.resolve n).ty = e.ty ∧ ∀ c ∈ e.children, c.Ruled n :=
  forall_mem_nodes

theorem Ruled.self (h : e.Ruled n) : (e.resolve n).ty = e.ty := (ruled_iff.mp h).1

theorem Ruled.of_mem {c : Expr} (h : e.Ruled n) (hc : c ∈ e.children) : c.Ruled n := (ruled_iff.mp h).2 c hc

/-- **The value of an expression with a type has that type**, if the values of names have. -/
theorem fits_of_eval? (hlookup : ∀ name x, n.symbols.find? name = some x → x.ty.isError = false →
      ∀ vs, lookup name = some vs → x.ty.Fits vs)
    (hruled : e.Ruled n) (hshaped : e.Shaped) (hty : e.ty.isError = false) {vs : List Constant}
    (h : e.eval? lookup = some vs) : e.ty.Fits vs := by
  induction e using forall_of_children generalizing vs with
  | h e ih =>
    -- A child has the type of its rule, and its value fits as soon as that is not the error type.
    have hchild {c : Expr} (hc : c ∈ e.children) : (c.resolve n).ty = c.ty ∧
        (c.ty.isError = false → ∀ {vs}, c.eval? lookup = some vs → c.ty.Fits vs) :=
      ⟨(hruled.of_mem hc).self, fun hty _ => ih c hc (hruled.of_mem hc) ((shaped_iff.mp hshaped).2 c hc) hty⟩
    have hself := hruled.self
    have hnode := (shaped_iff.mp hshaped).1
    cases e with
    | lit note value =>
      cases h
      rw [← hself]
      exact .singleton rfl
    | var note name =>
      rw [resolve] at hself
      rw [← hself] at hty ⊢
      split at hty
      · exact hlookup name _ (by assumption) hty _ h
      · cases hty
    | unary note op a =>
      obtain ⟨us, hus, h⟩ := Option.bind_eq_some_iff.mp h
      obtain ⟨haty, ha⟩ := hchild (c := a) (by simp [children])
      rw [ty_resolve_unary, haty] at hself
      have hsame := UnaryOp.result?_eq (Ty.eq_some_of_getD hself hty)
      rw [hsame] at hty ⊢
      exact (ha hty hus).unary h
    | binary note op a b =>
      rw [eval?] at h
      split at h
      · cases h
      · rename_i hmatrix
        obtain ⟨us, hus, h⟩ := Option.bind_eq_some_iff.mp h
        obtain ⟨ws, hws, h⟩ := Option.bind_eq_some_iff.mp h
        obtain ⟨haty, ha⟩ := hchild (c := a) (by simp [children])
        obtain ⟨hbty, hb⟩ := hchild (c := b) (by simp [children])
        rw [ty_resolve_binary, haty, hbty] at hself
        have hresult := Ty.eq_some_of_getD hself hty
        obtain ⟨hleft, hright⟩ := BinaryOp.isError_of_result? hresult
        exact (ha hleft hus).binary (hb hright hws) (by simpa using hmatrix) hresult h
    | ternary note c a b =>
      obtain ⟨us, hus, h⟩ := Option.bind_eq_some_iff.mp h
      obtain ⟨haty, ha⟩ := hchild (c := a) (by simp [children])
      obtain ⟨hbty, hb⟩ := hchild (c := b) (by simp [children])
      rw [ty_resolve_ternary, haty, hbty] at hself
      rw [← hself] at hty ⊢
      split at hty
      · rename_i hsame
        rw [if_pos hsame]
        split at h
        · exact ha hty h
        · rw [hsame] at hty ⊢
          exact hb hty h
        · cases h
      · cases hty
    | call note callee args =>
      cases callee with
      | constructor ty =>
        obtain ⟨us, -, h⟩ := Option.bind_eq_some_iff.mp h
        have hfits : ty.Fits vs := .constructor hnode h
        obtain ⟨-, s, shape, rfl, -⟩ := id hfits
        rw [ty_resolve_constructor, if_neg (by simp)] at hself
        rw [← hself]
        exact hfits
      | user name | builtin name => cases h
    | swizzle note a set ks =>
      obtain ⟨us, hus, h⟩ := Option.bind_eq_some_iff.mp h
      obtain ⟨haty, ha⟩ := hchild (c := a) (by simp [children])
      rw [ty_resolve_swizzle, haty] at hself
      rw [← hself] at hty ⊢
      exact (ha (Ty.isError_of_swizzled hty) hus).swizzle hnode hty h
    | index note a b =>
      rw [eval?] at h
      split at h
      · rename_i hvector
        obtain ⟨us, hus, h⟩ := Option.bind_eq_some_iff.mp h
        obtain ⟨ws, -, h⟩ := Option.bind_eq_some_iff.mp h
        obtain ⟨k, -, h⟩ := Option.bind_eq_some_iff.mp h
        split at h
        · cases h
        · obtain ⟨v, hv, rfl⟩ := Option.map_eq_some_iff.mp h
          obtain ⟨haty, ha⟩ := hchild (c := a) (by simp [children])
          rw [ty_resolve_index, haty] at hself
          rw [← hself]
          exact (ha (Ty.isError_of_isVector hvector) hus).index hvector (List.mem_of_getElem? hv)
      · cases h
    | seq note es =>
      rw [eval?, evalLast?_eq, Option.bind_eq_some_iff] at h
      obtain ⟨e, he, h⟩ := h
      obtain ⟨hety, hfits⟩ := hchild (c := e) (List.mem_of_getLast? he)
      rw [ty_resolve_seq, he, Option.map_some, Option.getD_some, hety] at hself
      rw [← hself] at hty ⊢
      exact hfits hty h
    | assign | field => cases h

/-! ### Well-typed expressions -/

/-- A constructor takes its arguments, and a swizzle selects something. -/
def NodeAccepted (members : Ty → List Ty) : Expr → Prop
  | .call _ (.constructor ty) args => ty.constructorProblem? (args.map Expr.ty) (members ty) = none
  | .swizzle _ _ _ components => components ≠ []
  | _ => True

instance (members : Ty → List Ty) : (e : Expr) → Decidable (e.NodeAccepted members)
  | .call _ (.constructor _) _ => inferInstanceAs (Decidable (_ = _))
  | .swizzle .. => inferInstanceAs (Decidable (_ ≠ _))
  | .lit .. | .var .. | .unary .. | .binary .. | .assign .. | .ternary .. | .field .. | .index .. | .seq ..
  | .call _ (.builtin _) _ | .call _ (.user _) _ => isTrue trivial

/-- Every node has a type of the language, the one that its rule gives, and every constructor takes its
arguments.  `members` gives the types of the members of structures. -/
def WellTyped (n : Names) (members : Ty → List Ty) (e : Expr) : Prop :=
  ∀ x ∈ e.nodes, x.ty.isError = false ∧ x.ty.Proper ∧ (x.resolve n).ty = x.ty ∧ x.NodeAccepted members

instance (n : Names) (members : Ty → List Ty) (e : Expr) : Decidable (e.WellTyped n members) :=
  inferInstanceAs (Decidable (∀ x ∈ e.nodes, _))

/-- Names of scalars, vectors and matrices have values with the components of their types, and other names have
no values. -/
def Respects (n : Names) (lookup : String → Option (List Constant)) : Prop :=
  ∀ name x, n.symbols.find? name = some x → ∀ vs, lookup name = some vs → x.ty.Fits vs

namespace WellTyped

variable {members : Ty → List Ty} {e : Expr} {note : Note} {args : List Expr}

theorem ruled (h : e.WellTyped n members) : e.Ruled n := fun x hx => (h x hx).2.2.1

theorem shaped (h : e.WellTyped n members) : e.Shaped := by
  intro x hx
  obtain ⟨-, hproper, hruled, haccepted⟩ := h x hx
  cases x with
  | swizzle note a set ks => exact haccepted
  | call note callee args =>
    cases callee with
    | constructor ty =>
      rw [← hruled, ty_resolve_constructor] at hproper
      split at hproper <;> exact hproper
    | _ => trivial
  | _ => trivial

theorem fits (h : e.WellTyped n members) (hlookup : Respects n lookup) {vs : List Constant}
    (hvs : e.eval? lookup = some vs) : e.ty.Fits vs :=
  fits_of_eval? (fun name x hx _ vs hvs => hlookup name x hx vs hvs) h.ruled h.shaped (h e (mem_nodes_self e)).1 hvs

theorem of_mem (h : e.WellTyped n members) {c : Expr} (hc : c ∈ e.children) : c.WellTyped n members :=
  (forall_mem_nodes.mp h).2 c hc

/-- A constructor of neither arrays nor structures takes its arguments. -/
theorem value_of_constructor {ty : Ty}
    (h : (call note (.constructor ty) args).WellTyped n members) (harray : ty.isArray = false)
    (hstruct : ty.isStruct = false) : ∃ s shape, ty = ⟨.value s shape, none⟩ ∧ args.map Expr.ty ≠ [] ∧
      Ty.valueProblem? ty (args.map Expr.ty) = none := by
  refine Ty.value_of_constructorProblem? (h _ (mem_nodes_self _)).2.2.2 ?_ harray hstruct
  rw [List.any_map, List.any_eq_false]
  exact fun a ha => Bool.not_eq_true _ ▸ ((h.of_mem ha) a (mem_nodes_self a)).1

/-- A constructor of a scalar or vector has a value if its arguments have. -/
theorem exists_constructor {s : Scalar} {shape : Shape}
    (h : (call note (.constructor ⟨.value s shape, none⟩) args).WellTyped n members) (hlookup : Respects n lookup)
    (hmatrix : Ty.isMatrix ⟨.value s shape, none⟩ = false) (hargs : ∀ a ∈ args, (a.eval? lookup).isSome = true) :
    ∃ ws, eval? lookup (call note (.constructor ⟨.value s shape, none⟩) args) = some ws ∧
      ∀ w ∈ ws, ∃ a ∈ args, ∃ vs, a.eval? lookup = some vs ∧ ∃ v ∈ vs, w = v.convert s := by
  obtain ⟨-, -, -, hargs', hproblem⟩ := h.value_of_constructor rfl rfl
  have hfits : ∀ a ∈ args, a.ty.Fits ((a.eval? lookup).getD []) := fun a ha => by
    obtain ⟨vs, hvs⟩ := Option.isSome_iff_exists.mp (hargs a ha)
    rw [hvs]
    exact (h.of_mem ha).fits hlookup hvs
  have hlength : ∀ a ∈ args, ((a.eval? lookup).getD []).length = a.ty.components := fun a ha => by
    obtain ⟨-, s, shape, hty, hlength, -⟩ := hfits a ha
    rw [hlength, hty]
    rfl
  have hsum : (args.flatMap fun a => (a.eval? lookup).getD []).length =
      ((args.map Expr.ty).map Ty.components).sum := by
    rw [List.length_flatMap, List.map_map]
    exact congrArg List.sum (List.map_congr_left hlength)
  have hne : (args.flatMap fun a => (a.eval? lookup).getD []) ≠ [] := by
    obtain ⟨a, ha⟩ := List.exists_mem_of_ne_nil args (by simpa using hargs')
    intro hnil
    exact (hfits a ha).ne_nil (List.flatMap_eq_nil_iff.mp hnil a ha)
  have hcount : args.length = 1 ∧ (args.flatMap fun a => (a.eval? lookup).getD []).length = 1 ∨
      shape.components ≤ (args.flatMap fun a => (a.eval? lookup).getD []).length := by
    by_cases hone : ∃ a, args = [a] ∧ a.ty.isScalar = true
    · obtain ⟨a, rfl, ha⟩ := hone
      refine .inl ⟨rfl, ?_⟩
      rw [hsum]
      simp [Ty.components, beq_iff_eq.mp (Bool.and_eq_true_iff.mp ha).2, Shape.components]
    · refine .inr (hsum ▸ Ty.components_le_of_valueProblem? hproblem (fun t ht => ?_) fun t ht => ⟨?_, ?_⟩)
      · obtain ⟨a, ha, rfl⟩ := List.mem_map.mp ht
        rw [← hlength a ha]
        exact List.length_pos_iff.mpr (hfits a ha).ne_nil
      · obtain ⟨a, rfl, rfl⟩ := List.map_eq_singleton_iff.mp ht
        exact Bool.eq_false_iff.mpr fun ha => hone ⟨a, rfl, ha⟩
      · rw [hmatrix, Bool.false_and]
  obtain ⟨ws, hws, hall⟩ := exists_evalConstructor? hmatrix hne hcount
  refine ⟨ws, ?_, fun w hw => ?_⟩
  · rw [eval?, evalAll?_eq_some_iff.mpr ⟨hargs, rfl⟩]
    exact hws
  · obtain ⟨v, hv, rfl⟩ := hall w hw
    obtain ⟨a, ha, hv⟩ := List.mem_flatMap.mp hv
    obtain ⟨vs, hvs⟩ := Option.isSome_iff_exists.mp (hargs a ha)
    exact ⟨a, ha, vs, hvs, v, by rwa [hvs] at hv, rfl⟩

/-- **Evaluation keeps types.**  The value of a well-typed expression has as many components as its type, of
the kind of its type, and a constructor of a scalar or vector has a value if its arguments have. -/
theorem eval?_typed (h : e.WellTyped n members) (hlookup : Respects n lookup) :
    (∀ vs, e.eval? lookup = some vs → vs.length = e.ty.components ∧ ∀ v ∈ vs, e.ty.scalar? = some v.scalar) ∧
      ∀ note s shape args, e = .call note (.constructor ⟨.value s shape, none⟩) args →
        Ty.isMatrix ⟨.value s shape, none⟩ = false → (∀ a ∈ args, (a.eval? lookup).isSome = true) →
        (e.eval? lookup).isSome = true := by
  constructor
  · intro vs hvs
    obtain ⟨-, s, shape, hty, hlength, hscalar⟩ := h.fits hlookup hvs
    rw [hty]
    exact ⟨hlength, fun v hv => congrArg some (hscalar v hv).symm⟩
  · rintro note s shape args rfl hmatrix hargs
    obtain ⟨ws, hws, -⟩ := h.exists_constructor hlookup hmatrix hargs
    rw [hws]
    rfl

/-- `ivec3(ivec2(1), 2u)` has three components. -/
theorem eval?_typed_vector : let loc : Location := default
    let one : Expr := .lit ⟨.int, .const, loc⟩ (.int 1)
    let pair : Expr := .call ⟨.vector .int 2, .const, loc⟩ (.constructor (.vector .int 2)) [one]
    let two : Expr := .lit ⟨.uint, .const, loc⟩ (.uint 2)
    let e : Expr := .call ⟨.vector .int 3, .const, loc⟩ (.constructor (.vector .int 3)) [pair, two]
    (∀ vs, e.eval? (fun _ => none) = some vs → vs.length = 3 ∧ ∀ v ∈ vs, some .int = some v.scalar) ∧
      (e.eval? fun _ => none).isSome = true := by
  intro loc one pair two e
  have h := @eval?_typed { version := .es300 } (fun _ => none) (fun _ => []) e (by decide +kernel)
    (by simp [Respects])
  exact ⟨h.1, h.2 _ _ _ _ rfl rfl (by decide +kernel)⟩

end WellTyped

end Expr

end GlslEs
