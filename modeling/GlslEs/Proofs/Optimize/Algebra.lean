import GlslEs.Optimize.Rule
import GlslEs.Proofs.Semantics.Sound

/-!
# Laws of the operations on values

The laws that the rules of optimization rely on: zero and one are neutral, two signs cancel, and
a comparison fails exactly where the opposite one holds.

* `Value.arith?_neutral_right`, `Value.arith?_neutral_left`: neutral operands, on either side.
* `Value.unary?_unary?`: two equal signs.
* `Value.compare?_negated`: the opposite comparison.
-/

namespace GlslEs

variable {F : Type} {α : Type} {op : UnaryOp}

/-! ### Components -/

namespace Datum

variable {f : FloatArith F} {x : Datum F}

/-- Zero is neutral for sums and on the right of differences, and changes the sign on their left. -/
theorem arith?_zero (h : x.scalar ≠ .bool) :
    arith? f .add x (zero f x.scalar) = some x ∧ arith? f .add (zero f x.scalar) x = some x ∧
      arith? f .sub x (zero f x.scalar) = some x ∧
      arith? f .sub (zero f x.scalar) x = unary? f .minus x := by
  cases x with
  | float x =>
    simp [arith?, floatArith?, zero, scalar, unary?, f.add_zero, f.zero_add, f.sub_zero, f.zero_sub]
  | int n => simp [arith?, intArith?, zero, scalar, unary?]
  | uint n => simp [arith?, uintArith?, zero, scalar, unary?]
  | bool b => exact (h rfl).elim

/-- One is neutral for products and on the right of quotients. -/
theorem arith?_one (h : x.scalar ≠ .bool) :
    arith? f .mul x (one f x.scalar) = some x ∧ arith? f .mul (one f x.scalar) x = some x ∧
      arith? f .div x (one f x.scalar) = some x := by
  cases x with
  | float x => simp [arith?, floatArith?, one, scalar, f.mul_one, f.one_mul, f.div_one]
  | int n => simp [arith?, intArith?, one, scalar]
  | uint n => simp [arith?, uintArith?, one, scalar]
  | bool b => exact (h rfl).elim

end Datum

/-! ### Lists of components -/

theorem mapM_congr {β : Type} {g k : α → Option β} {as : List α} (h : ∀ a ∈ as, g a = k a) :
    as.mapM g = as.mapM k := by
  induction as with
  | nil => rfl
  | cons a as ih =>
    rw [List.mapM_cons, List.mapM_cons, h a (by simp), ih fun b hb => h b (by simp [hb])]

theorem mapM_some (as : List α) : as.mapM some = some as := by
  induction as with
  | nil => rfl
  | cons a as ih => rw [List.mapM_cons, ih]; rfl

theorem zipM?_replicate_right {β γ : Type} (g : α → β → Option γ) (as : List α) (b : β) :
    zipM? g as (List.replicate as.length b) = as.mapM (g · b) := by
  rw [zipM?, if_pos List.length_replicate.symm]
  induction as with
  | nil => rfl
  | cons a as ih => simp [List.replicate_succ, ih]

theorem zipM?_replicate_left {β γ : Type} (g : α → β → Option γ) (a : α) (bs : List β) :
    zipM? g (List.replicate bs.length a) bs = bs.mapM (g a) := by
  rw [zipM?, if_pos List.length_replicate]
  induction bs with
  | nil => rfl
  | cons b bs ih => simp [List.replicate_succ, ih]

namespace Datum

variable {g : Datum F → Datum F → Option (Datum F)} {l r : Shape}

/-- The same component everywhere on the right, of a shape that does not enlarge the left. -/
theorem componentwise?_replicate_right {xs : List (Datum F)} (hlen : xs.length = l.components)
    (hr : r = l ∨ l ≠ .scalar ∧ r = .scalar) (z : Datum F) :
    componentwise? g l r xs (List.replicate r.components z) = xs.mapM (g · z) := by
  unfold componentwise?
  by_cases heq : l = r
  · subst heq
    rw [if_pos rfl, ← hlen, zipM?_replicate_right]
  · obtain ⟨hl, rfl⟩ := hr.resolve_left fun e => heq e.symm
    rw [if_neg heq, if_neg hl, if_pos rfl]
    rfl

/-- The same component everywhere on the left, of a shape that does not enlarge the right. -/
theorem componentwise?_replicate_left {ys : List (Datum F)} (hlen : ys.length = r.components)
    (hl : l = r ∨ l = .scalar) (z : Datum F) :
    componentwise? g l r (List.replicate l.components z) ys = ys.mapM (g z) := by
  unfold componentwise?
  by_cases heq : l = r
  · subst heq
    rw [if_pos rfl, ← hlen, zipM?_replicate_left]
  · obtain rfl := hl.resolve_left heq
    rw [if_neg heq, if_pos rfl]
    rfl

end Datum

/-! ### Values -/

/-- Whether a product of two shapes works component by component. -/
def Shape.MultipliesAlike (l r : Shape) : Prop :=
  l = .scalar ∨ r = .scalar ∨ l = r ∧ ∀ columns rows, l ≠ .matrix columns rows

theorem Shape.MultipliesAlike.symm {l r : Shape} (h : l.MultipliesAlike r) :
    r.MultipliesAlike l := by
  rcases h with h | h | ⟨rfl, h⟩
  · exact Or.inr (Or.inl h)
  · exact Or.inl h
  · exact Or.inr (Or.inr ⟨rfl, h⟩)

/-- An operand that works on every component of another one alike multiplies it so. -/
theorem Rule.multipliesAlike {t t' : Ty} (hm : t.isMatrix = false) (h : isComponentwise t t' = true)
    (ht : t.array = none) : t.shape.MultipliesAlike t'.shape := by
  simp only [isComponentwise, Bool.or_eq_true, decide_eq_true_eq] at h
  rcases h with h | rfl
  · exact Or.inl (beq_iff_eq.mp (Bool.and_eq_true_iff.mp h).2)
  · refine Or.inr (Or.inr ⟨rfl, fun columns rows hs => ?_⟩)
    simp [Ty.isMatrix, Ty.isArray, ht, hs] at hm

theorem Ty.product?_eq_arithmetic? {l r : Ty} (h : l.shape.MultipliesAlike r.shape) :
    l.product? r = l.arithmetic? r := by
  unfold product?
  split
  · rcases h with h | h | ⟨h, -⟩ <;> cases h
  · rcases h with h | h | ⟨h, -⟩ <;> cases h
  · rcases h with h | h | ⟨-, h⟩
    · cases h
    · cases h
    · exact (h _ _ rfl).elim
  · rfl

/-- Operations on numbers of all kinds. -/
def ArithOp.IsField (op : ArithOp) : Prop := op = .add ∨ op = .sub ∨ op = .mul ∨ op = .div

theorem Ty.value_of_isArithmetic {t : Ty} (h : t.isArithmetic = true) :
    ∃ s shape, t = ⟨.value s shape, none⟩ ∧ s ≠ .bool := by
  obtain ⟨base, array⟩ := t
  obtain ⟨harray, hnum⟩ := Bool.and_eq_true_iff.mp h
  cases array with
  | some size => cases harray
  | none =>
    cases base with
    | value s shape =>
      refine ⟨s, shape, rfl, ?_⟩
      rintro rfl
      cases hnum
    | void | sampler _ | struct _ | error => cases hnum

theorem Ty.isArithmetic_value {s : Scalar} {shape : Shape} (h : s ≠ .bool) :
    isArithmetic ⟨.value s shape, none⟩ = true := by
  cases s with
  | bool => exact (h rfl).elim
  | _ => rfl

/-- The operands of a sum, difference, quotient or a product component by component: numbers of
one kind, the smaller of them a scalar. -/
theorem ArithOp.IsField.operands {op : ArithOp} (hop : op.IsField) {l r t : Ty}
    (ht : (BinaryOp.arith op).result? l r = some t)
    (hmul : op = .mul → l.shape.MultipliesAlike r.shape) :
    ∃ s lsh rsh, l = ⟨.value s lsh, none⟩ ∧ r = ⟨.value s rsh, none⟩ ∧ s ≠ .bool ∧
      l.broadcast? r = some t := by
  have harith : l.arithmetic? r = some t := by
    unfold BinaryOp.result? at ht
    split at ht
    · cases ht
    · rcases hop with rfl | rfl | rfl | rfl
      · exact ht
      · exact ht
      · exact (Ty.product?_eq_arithmetic? (hmul rfl)).symm.trans ht
      · exact ht
  unfold Ty.arithmetic? at harith
  split at harith
  · rename_i h
    simp only [Bool.and_eq_true, beq_iff_eq] at h
    obtain ⟨s, lsh, rfl, hs⟩ := Ty.value_of_isArithmetic h.1.1
    obtain ⟨s', rsh, rfl, -⟩ := Ty.value_of_isArithmetic h.1.2
    have hs' : s = s' := Option.some.inj h.2
    subst hs'
    exact ⟨s, lsh, rsh, rfl, rfl, hs, harith⟩
  · cases harith

namespace Value

variable {f : FloatArith F} {structs : List (String × MemberTypes)} {op : ArithOp} {s : Scalar}
  {v : Value F} {u : Scalar → Datum F}

/-- Sums, differences, quotients and most products work component by component. -/
theorem arith?_eq_componentwise? {lsh rsh : Shape} {t : Ty}
    (ht : (BinaryOp.arith op).result? ⟨.value s lsh, none⟩ ⟨.value s rsh, none⟩ = some t)
    (hmul : op = .mul → lsh.MultipliesAlike rsh) (xs ys : List (Datum F)) :
    arith? f op ⟨.value s lsh, none⟩ ⟨.value s rsh, none⟩ (.data xs) (.data ys) =
      (Datum.componentwise? (Datum.arith? f op) lsh rsh xs ys).map .data := by
  cases op with
  | mul =>
    have hp : Ty.product? ⟨.value s lsh, none⟩ ⟨.value s rsh, none⟩ = some t := ht
    have hd : ∀ size, Datum.product? f lsh rsh size xs ys =
        Datum.componentwise? (Datum.arith? f .mul) lsh rsh xs ys := by
      intro size
      rcases hmul rfl with rfl | rfl | ⟨rfl, hm⟩
      · cases rsh <;> rfl
      · cases lsh <;> rfl
      · cases lsh with
        | scalar | vector n => rfl
        | matrix columns rows => exact (hm columns rows rfl).elim
    simp only [arith?, components?, hp, Option.bind_eq_bind, Option.bind_some]
    exact congrArg (Option.map Value.data) (hd t.components)
  | _ => rfl

theorem unary?_plus {shape : Shape}
    (hv : HasType structs v ⟨.value s shape, none⟩) : v.unary? f .plus = some v := by
  obtain ⟨cs, rfl, -, -⟩ := hv.data_of
  have : cs.mapM (Datum.unary? f .plus) = cs.mapM some :=
    mapM_congr fun c _ => by cases c <;> rfl
  rw [unary?, this, mapM_some]
  rfl

/-- **A neutral component everywhere on the right leaves the left operand as it is.** -/
theorem arith?_neutral_right {l : Ty} {rsh : Shape} (hop : op.IsField)
    (hu : ∀ x : Datum F, x.scalar ≠ .bool → Datum.arith? f op x (u x.scalar) = some x)
    (ht : (BinaryOp.arith op).result? l ⟨.value s rsh, none⟩ = some l)
    (hmul : op = .mul → l.shape.MultipliesAlike rsh) (hv : HasType structs v l) :
    arith? f op l ⟨.value s rsh, none⟩ v (.data (List.replicate rsh.components (u s))) =
      some v := by
  obtain ⟨s', lsh, rsh', rfl, hr, hs, hb⟩ := hop.operands ht hmul
  cases hr
  obtain ⟨xs, rfl, hlen, hk⟩ := hv.data_of
  have hshape : rsh = lsh ∨ lsh ≠ .scalar ∧ rsh = .scalar := by
    rcases Ty.broadcast?_cases hb with ⟨-, h⟩ | ⟨h, hne, -⟩ | ⟨-, -, hl, hr⟩
    · exact Or.inl h.symm
    · exact (hne (congrArg Ty.shape h)).elim
    · exact Or.inr ⟨hl, hr⟩
  rw [arith?_eq_componentwise? ht hmul, Datum.componentwise?_replicate_right hlen hshape,
    mapM_congr (k := some), mapM_some]
  · rfl
  · intro x hx
    rw [← hk x hx]
    exact hu x (hk x hx ▸ hs)

/-- **A component everywhere on the left that acts as a sign gives the right operand with that
sign.** -/
theorem arith?_neutral_left {sign : UnaryOp} {r : Ty}
    {w : Value F} {lsh : Shape} (hop : op.IsField)
    (hu : ∀ x : Datum F, x.scalar ≠ .bool →
      Datum.arith? f op (u x.scalar) x = Datum.unary? f sign x)
    (ht : (BinaryOp.arith op).result? ⟨.value s lsh, none⟩ r = some r)
    (hmul : op = .mul → lsh.MultipliesAlike r.shape) (hw : HasType structs w r) :
    arith? f op ⟨.value s lsh, none⟩ r (.data (List.replicate lsh.components (u s))) w =
      w.unary? f sign := by
  obtain ⟨s', lsh', rsh, hl, rfl, hs, hb⟩ := hop.operands ht hmul
  cases hl
  obtain ⟨ys, rfl, hlen, hk⟩ := hw.data_of
  have hshape : lsh = rsh ∨ lsh = .scalar := by
    rcases Ty.broadcast?_cases hb with ⟨-, h⟩ | ⟨-, -, h⟩ | ⟨h, hne, -, -⟩
    · exact Or.inl h
    · exact Or.inr h
    · exact (hne (congrArg Ty.shape h).symm).elim
  rw [arith?_eq_componentwise? ht hmul, Datum.componentwise?_replicate_left hlen hshape,
    mapM_congr (k := Datum.unary? f sign)]
  · rfl
  · intro y hy
    rw [← hk y hy]
    exact hu y (hk y hy ▸ hs)

end Value

/-! ### Two signs -/

/-- The kinds of components that a sign goes before. -/
def UnaryOp.applies (op : UnaryOp) (s : Scalar) : Prop :=
  match op with
  | .not => s = .bool
  | .bitNot => s = .int ∨ s = .uint
  | _ => s ≠ .bool

theorem UnaryOp.value_of_result? {t t' : Ty} (h : op.result? t = some t') :
    ∃ s shape, t = ⟨.value s shape, none⟩ ∧ op.applies s := by
  cases op with
  | not =>
    simp only [UnaryOp.result?] at h
    split at h
    · rename_i hb
      exact ⟨.bool, .scalar, beq_iff_eq.mp hb, rfl⟩
    · cases h
  | bitNot =>
    simp only [UnaryOp.result?] at h
    split at h
    · rename_i hb
      simp only [Bool.and_eq_true, Bool.not_eq_true'] at hb
      obtain ⟨⟨hint, harray⟩, -⟩ := hb
      obtain ⟨base, array⟩ := t
      cases array with
      | some size => cases harray
      | none =>
        cases base with
        | value s shape =>
          refine ⟨s, shape, rfl, ?_⟩
          simpa [Ty.isInteger, Ty.scalar?, Base.scalar?, UnaryOp.applies] using hint
        | void | sampler _ | struct _ | error => cases hint
    · cases h
  | _ =>
    simp only [UnaryOp.result?] at h
    split at h
    · rename_i hb
      exact Ty.value_of_isArithmetic hb
    · cases h

theorem Datum.unary?_unary? {f : FloatArith F} {x : Datum F} (hop : op.isIncrement = false)
    (h : op.applies x.scalar) : (Datum.unary? f op x).bind (Datum.unary? f op) = some x := by
  cases op with
  | plus => cases x <;> rfl
  | minus =>
    cases x with
    | float x => simp [Datum.unary?, f.neg_neg]
    | int n | uint n => simp [Datum.unary?]
    | bool b => exact (h rfl).elim
  | not =>
    cases x with
    | bool b => simp [Datum.unary?]
    | float x | int n | uint n => cases h
  | bitNot =>
    cases x with
    | int n | uint n => simp [Datum.unary?]
    | float x | bool b => rcases h with h | h <;> cases h
  | _ => cases hop

theorem mapM_mapM_of_involutive {g : α → Option α} {as : List α}
    (h : ∀ a ∈ as, (g a).bind g = some a) : (as.mapM g).bind (·.mapM g) = some as := by
  induction as with
  | nil => rfl
  | cons a as ih =>
    obtain ⟨b, hb, ha⟩ := Option.bind_eq_some_iff.mp (h a (by simp))
    obtain ⟨bs, hbs, has⟩ := Option.bind_eq_some_iff.mp (ih fun c hc => h c (by simp [hc]))
    simp [hb, hbs, ha, has]

theorem CompareOp.result?_negated (op : CompareOp) (l r : Ty) :
    (BinaryOp.compare op.negated).result? l r = (BinaryOp.compare op).result? l r := by
  cases op <;> rfl

namespace Value

variable {f : FloatArith F} {structs : List (String × MemberTypes)} {op : CompareOp}

/-- **Two equal signs cancel.** -/
theorem unary?_unary? {op : UnaryOp} {t t' : Ty} {v : Value F} (hop : op.isIncrement = false)
    (ht : op.result? t = some t') (hv : HasType structs v t) :
    (v.unary? f op).bind (unary? f op) = some v := by
  obtain ⟨s, shape, rfl, hs⟩ := UnaryOp.value_of_result? ht
  obtain ⟨cs, rfl, -, hk⟩ := hv.data_of
  have hcs : (cs.mapM (Datum.unary? f op)).bind (·.mapM (Datum.unary? f op)) = some cs :=
    mapM_mapM_of_involutive fun c hc => Datum.unary?_unary? hop (hk c hc ▸ hs)
  obtain ⟨ds, hds, hcs⟩ := Option.bind_eq_some_iff.mp hcs
  simp [unary?, hds, hcs]

/-! ### Opposite comparisons -/

/-- Whether a comparison of values of a type fails exactly where the opposite one holds. -/
def Negates (f : FloatArith F) (op : CompareOp) (t : Ty) : Prop :=
  op.isEquality = true ∨ t.isFloat = false ∨ f.TotalOrder

theorem orders_negated (hop : op.isEquality = false) (o : Ordering) :
    (!Datum.orders op o) = Datum.orders op.negated o := by
  cases op with
  | eq | ne => cases hop
  | _ => cases o <;> rfl

theorem floatOrders_negated (hop : op.isEquality = false) (hf : f.TotalOrder)
    (x y : F) : (!Datum.floatOrders f op x y) = Datum.floatOrders f op.negated x y := by
  cases op with
  | eq | ne => cases hop
  | lt => exact (hf.ge_eq_not_lt x y).symm
  | gt => exact (hf.le_eq_not_gt x y).symm
  | le => simp [Datum.floatOrders, CompareOp.negated, hf.le_eq_not_gt]
  | ge => simp [Datum.floatOrders, CompareOp.negated, hf.ge_eq_not_lt]

theorem order?_negated {x y : Datum F} (hop : op.isEquality = false)
    (h : x.scalar ≠ .float ∨ f.TotalOrder) :
    (Datum.order? f op x y).map (!·) = Datum.order? f op.negated x y := by
  cases x with
  | float x =>
    have hf := h.resolve_left fun h => h rfl
    cases y <;> simp [Datum.order?, floatOrders_negated hop hf]
  | int n | uint n => cases y <;> simp [Datum.order?, orders_negated hop]
  | bool b => cases y <;> rfl

theorem compare?_of_order (hop : op.isEquality = false) (v w : Value F) :
    compare? f op v w =
      match v, w with
      | .data [x], .data [y] => (Datum.order? f op x y).map fun b => .data [.bool b]
      | _, _ => none := by
  cases op with
  | eq | ne => cases hop
  | _ => rfl

/-- **A comparison fails exactly where the opposite one holds.** -/
theorem compare?_negated {l : Ty} {v w : Value F} (hn : Negates f op l) (hv : HasType structs v l) :
    (compare? f op v w).bind (unary? f .not) = compare? f op.negated v w := by
  have hnot : ∀ b : Bool, unary? f .not (.data [.bool b]) = some (.data [.bool !b]) :=
    fun b => rfl
  cases hop : op.isEquality with
  | true =>
    cases op with
    | eq | ne => simp [compare?, CompareOp.negated, hnot, nev_eq_not_eqv]
    | _ => cases hop
  | false =>
    have hop' : op.negated.isEquality = false := by
      cases op <;> first | rfl | exact hop
    rw [compare?_of_order hop, compare?_of_order hop']
    split
    · rename_i x y
      have hkind : x.scalar ≠ .float ∨ f.TotalOrder := by
        refine (hn.resolve_left (by rw [hop]; exact Bool.false_ne_true)).imp_left fun hl hx => ?_
        cases hv with
        | data length kinds =>
          rw [← kinds x (by simp), hx] at hl
          cases hl
      rw [← order?_negated hop hkind]
      cases Datum.order? f op x y with
      | none => rfl
      | some b => exact hnot b
    · rfl

end Value

end GlslEs
