import GlslEs.Proofs.Semantics.Operator

/-!
# Operations respect types

The type rules of operators and constructors say of which type a result is.  Here the result of
every operation on values is shown to have that type.
-/

namespace GlslEs

variable {F : Type} {t : Ty} {s : Scalar}

/-! ### Types -/

/-- An operation with one operand keeps its type. -/
theorem UnaryOp.result?_eq {op : UnaryOp} {t' : Ty} (h : op.result? t = some t') : t' = t := by
  cases op with
  | not =>
    simp only [UnaryOp.result?] at h
    split at h
    · rename_i hb
      cases h
      exact (beq_iff_eq.mp hb).symm
    · cases h
  | _ =>
    simp only [UnaryOp.result?] at h
    split at h
    · cases h; rfl
    · cases h

/-- The type of an operation component by component is one operand's, and the other one has the
same shape or is a scalar. -/
theorem Ty.broadcast?_cases {l r : Ty} (h : l.broadcast? r = some t) :
    (t = l ∧ l.shape = r.shape) ∨ (t = r ∧ l.shape ≠ r.shape ∧ l.shape = .scalar) ∨
      (t = l ∧ l.shape ≠ r.shape ∧ l.shape ≠ .scalar ∧ r.shape = .scalar) := by
  unfold Ty.broadcast? at h
  split at h
  · rename_i h1
    cases h
    exact Or.inl ⟨rfl, beq_iff_eq.mp h1⟩
  · rename_i h1
    split at h
    · rename_i h2
      cases h
      exact Or.inr (Or.inl ⟨rfl, fun e => h1 (beq_iff_eq.mpr e), beq_iff_eq.mp h2⟩)
    · rename_i h2
      split at h
      · rename_i h3
        cases h
        exact Or.inr (Or.inr ⟨rfl, fun e => h1 (beq_iff_eq.mpr e),
          fun e => h2 (beq_iff_eq.mpr e), beq_iff_eq.mp h3⟩)
      · cases h

theorem Ty.broadcast?_of_arithmetic? {l r : Ty} (h : l.arithmetic? r = some t) :
    l.broadcast? r = some t := by
  unfold Ty.arithmetic? at h
  split at h
  · exact h
  · cases h

/-- The type of a product that is not one of linear algebra. -/
theorem Ty.broadcast?_of_product? {lsh rsh : Shape}
    (h1 : ∀ n columns rows, lsh = .vector n → rsh = .matrix columns rows → False)
    (h2 : ∀ columns rows n, lsh = .matrix columns rows → rsh = .vector n → False)
    (h3 : ∀ c r c' r', lsh = .matrix c r → rsh = .matrix c' r' → False)
    (h : Ty.product? ⟨.value s lsh, none⟩ ⟨.value s rsh, none⟩ = some t) :
    Ty.broadcast? ⟨.value s lsh, none⟩ ⟨.value s rsh, none⟩ = some t := by
  apply Ty.broadcast?_of_arithmetic?
  cases lsh with
  | scalar => cases s <;> cases rsh <;> exact h
  | vector n =>
    cases rsh with
    | matrix columns rows => exact (h1 n columns rows rfl rfl).elim
    | scalar | vector m => cases s <;> exact h
  | matrix columns rows =>
    cases rsh with
    | scalar => cases s <;> exact h
    | vector n => exact (h2 columns rows n rfl rfl).elim
    | matrix columns' rows' => exact (h3 _ _ _ _ rfl rfl).elim

/-- The shape of an operation component by component. -/
def Shape.larger (l r : Shape) : Shape := if l ≠ r ∧ l = .scalar then r else l

theorem Ty.eq_of_broadcast? {lsh rsh : Shape}
    (h : Ty.broadcast? ⟨.value s lsh, none⟩ ⟨.value s rsh, none⟩ = some t) :
    t = ⟨.value s (lsh.larger rsh), none⟩ := by
  rw [Shape.larger]
  rcases Ty.broadcast?_cases h with ⟨rfl, hs⟩ | ⟨rfl, hne, hs⟩ | ⟨rfl, -, hns, -⟩
  · rw [if_neg (fun e => e.1 hs)]
  · rw [if_pos ⟨hne, hs⟩]
  · rw [if_neg (fun e => hns e.2)]

/-- The type of a product of two scalars, vectors or matrices. -/
theorem Ty.product?_value {s' : Scalar} {lsh rsh : Shape}
    (h : Ty.product? ⟨.value s lsh, none⟩ ⟨.value s' rsh, none⟩ = some t) :
    s' = s ∧ ∃ shape, t = ⟨.value s shape, none⟩ := by
  unfold Ty.product? at h
  split at h
  · rename_i hl hr
    cases hl
    cases hr
    split at h
    · cases h; exact ⟨rfl, _, rfl⟩
    · cases h
  · rename_i hl hr
    cases hl
    cases hr
    split at h
    · cases h; exact ⟨rfl, _, rfl⟩
    · cases h
  · rename_i hl hr
    cases hl
    cases hr
    split at h
    · cases h; exact ⟨rfl, _, rfl⟩
    · cases h
  · unfold Ty.arithmetic? at h
    split at h
    · rename_i hs
      obtain ⟨-, hs⟩ := Bool.and_eq_true_iff.mp hs
      have hs : s = s' := by simpa [Ty.scalar?, Base.scalar?] using hs
      subst hs
      exact ⟨rfl, _, Ty.eq_of_broadcast? h⟩
    · cases h

/-- The type of an operation other than a product is the larger operand's.  Only a shift is of operands of
two kinds. -/
theorem BinaryOp.result?_arith {op : ArithOp} {s' : Scalar} {lsh rsh : Shape} (hop : op ≠ .mul)
    (h : (BinaryOp.arith op).result? ⟨.value s lsh, none⟩ ⟨.value s' rsh, none⟩ = some t) :
    t = ⟨.value s (lsh.larger rsh), none⟩ ∧ (s' = s ∨ lsh.larger rsh = lsh) := by
  have harith (h : Ty.arithmetic? ⟨.value s lsh, none⟩ ⟨.value s' rsh, none⟩ = some t) :
      t = ⟨.value s (lsh.larger rsh), none⟩ ∧ (s' = s ∨ lsh.larger rsh = lsh) := by
    unfold Ty.arithmetic? at h
    split at h
    · rename_i hs
      obtain ⟨-, hs⟩ := Bool.and_eq_true_iff.mp hs
      have hs : s = s' := by simpa [Ty.scalar?, Base.scalar?] using hs
      subst hs
      exact ⟨Ty.eq_of_broadcast? h, .inl rfl⟩
    · cases h
  have hbits (h : Ty.bitwise? ⟨.value s lsh, none⟩ ⟨.value s' rsh, none⟩ = some t) :
      t = ⟨.value s (lsh.larger rsh), none⟩ ∧ (s' = s ∨ lsh.larger rsh = lsh) := by
    unfold Ty.bitwise? at h
    split at h
    · rename_i hs
      simp only [Bool.and_eq_true, beq_iff_eq] at hs
      have hs : s = s' := by simpa [Ty.scalar?, Base.scalar?] using hs.1.1.2
      subst hs
      exact ⟨Ty.eq_of_broadcast? h, .inl rfl⟩
    · cases h
  have hshift (h : Ty.shift? ⟨.value s lsh, none⟩ ⟨.value s' rsh, none⟩ = some t) :
      t = ⟨.value s (lsh.larger rsh), none⟩ ∧ (s' = s ∨ lsh.larger rsh = lsh) := by
    unfold Ty.shift? at h
    split at h
    · cases lsh <;> cases rsh <;> simp_all [Ty.shape, Base.shape, Shape.larger]
    · cases h
  have hne : (Ty.isError ⟨.value s lsh, none⟩ || Ty.isError ⟨.value s' rsh, none⟩) = false := rfl
  unfold BinaryOp.result? at h
  rw [hne, if_neg Bool.false_ne_true] at h
  cases op with
  | add | sub => exact harith h
  | mul => exact (hop rfl).elim
  | div => exact harith h
  | mod => exact hbits h
  | shl | shr => exact hshift h
  | bitAnd | bitOr | bitXor => exact hbits h

/-- Comparisons are of operands of one type, and of scalars unless they are for equality. -/
theorem BinaryOp.result?_compare {op : CompareOp} {l r : Ty}
    (h : (BinaryOp.compare op).result? l r = some t) :
    t = .bool ∧ l = r ∧ ((BinaryOp.compare op).isEquality = false → l.isScalar = true) := by
  unfold BinaryOp.result? at h
  split at h
  · cases h
  · cases op <;>
    · simp only at h
      split at h
      · rename_i hc
        cases h
        simp only [Bool.and_eq_true, beq_iff_eq] at hc
        exact ⟨rfl, hc.1.1, by simp [isEquality, CompareOp.isEquality, hc.1.2]⟩
      · cases h

theorem BinaryOp.result?_logic {op : LogicOp} {l r : Ty}
    (h : (BinaryOp.logic op).result? l r = some t) : t = .bool ∧ l = .bool ∧ r = .bool := by
  simp only [BinaryOp.result?] at h
  split at h
  · cases h
  · split at h
    · rename_i hc
      cases h
      simp only [Bool.and_eq_true, beq_iff_eq] at hc
      exact ⟨rfl, hc.1, hc.2⟩
    · cases h

namespace Datum

variable {xs : List (Datum F)} {s : Scalar} {f : FloatArith F}

/-- What an operation component by component gives: as many components as the larger side, all of
the kind of the left one. -/
theorem componentwise?_spec {g : Datum F → Datum F → Option (Datum F)} {l r : Shape}
    {ys zs : List (Datum F)} (hg : ∀ x y z, g x y = some z → z.scalar = x.scalar)
    (hx : ∀ x ∈ xs, x.scalar = s) (h : componentwise? g l r xs ys = some zs) :
    (∀ z ∈ zs, z.scalar = s) ∧
      (xs.length = l.components → ys.length = r.components →
        zs.length = (l.larger r).components) := by
  unfold componentwise? at h
  by_cases h1 : l = r
  · rw [if_pos h1] at h
    refine ⟨fun z hz => ?_, fun hx _ => by simp [Shape.larger, h1, zipM?_length h, hx]⟩
    obtain ⟨x, hxm, y, -, hxy⟩ := exists_of_mem_zipM? h hz
    rw [hg x y z hxy, hx x hxm]
  · rw [if_neg h1] at h
    by_cases h2 : l = .scalar
    · rw [if_pos h2] at h
      split at h
      · rename_i x
        refine ⟨fun z hz => ?_, fun _ hy => by
          rw [Shape.larger, if_pos ⟨h1, h2⟩, length_of_mapM h, hy]⟩
        obtain ⟨y, -, hxy⟩ := exists_of_mem_mapM h hz
        rw [hg x y z hxy, hx x (by simp)]
      · cases h
    · rw [if_neg h2] at h
      split at h
      · split at h
        · rename_i y
          refine ⟨fun z hz => ?_, fun hx _ => by
            rw [Shape.larger, if_neg (fun e => h2 e.2), length_of_mapM h, hx]⟩
          obtain ⟨x, hxm, hxy⟩ := exists_of_mem_mapM h hz
          rw [hg x y z hxy, hx x hxm]
        · cases h
      · cases h

theorem scalar_foldlM_arith? {op : ArithOp} :
    ∀ {p q : Datum F}, xs.foldlM (arith? f op) p = some q → q.scalar = p.scalar := by
  induction xs with
  | nil =>
    intro p q h
    cases h
    rfl
  | cons x xs ih =>
    intro p q h
    simp only [List.foldlM_cons, Option.bind_eq_bind, Option.bind_eq_some_iff] at h
    obtain ⟨m, hm, h⟩ := h
    rw [ih h, scalar_arith? hm]

/-- A sum of products has the kind of the factors. -/
theorem scalar_dot? {ys : List (Datum F)} {z : Datum F}
    (hx : ∀ x ∈ xs, x.scalar = s) (h : dot? f xs ys = some z) : z.scalar = s := by
  simp only [dot?, Option.bind_eq_bind, Option.bind_eq_some_iff] at h
  obtain ⟨ps, hps, h⟩ := h
  cases ps with
  | nil => cases h
  | cons p ps =>
    obtain ⟨x, hxm, y, -, hxy⟩ := exists_of_mem_zipM? hps (by simp : p ∈ p :: ps)
    rw [scalar_foldlM_arith? h, scalar_arith? hxy, hx x hxm]

theorem mem_of_mem_row {columns rows i : Nat} {x : Datum F}
    (h : x ∈ row columns rows i xs) : x ∈ xs := by
  obtain ⟨j, -, hj⟩ := List.mem_filterMap.mp h
  exact List.mem_of_getElem? hj

/-- A product has as many components as its type, all of the kind of the factors. -/
theorem product?_spec {lsh rsh : Shape} {t : Ty}
    {ys zs : List (Datum F)} (hx : ∀ x ∈ xs, x.scalar = s)
    (hxl : xs.length = lsh.components) (hyl : ys.length = rsh.components)
    (ht : Ty.product? ⟨.value s lsh, none⟩ ⟨.value s rsh, none⟩ = some t)
    (h : product? f lsh rsh t.components xs ys = some zs) :
    (∀ z ∈ zs, z.scalar = s) ∧ zs.length = t.components := by
  unfold product? at h
  split at h
  · refine ⟨fun z hz => ?_, by rw [length_of_mapM h, List.length_range]⟩
    obtain ⟨j, -, hj⟩ := exists_of_mem_mapM h hz
    exact scalar_dot? hx hj
  · refine ⟨fun z hz => ?_, by rw [length_of_mapM h, List.length_range]⟩
    obtain ⟨j, -, hj⟩ := exists_of_mem_mapM h hz
    exact scalar_dot? (fun x hxm => hx x (mem_of_mem_row hxm)) hj
  · refine ⟨fun z hz => ?_, by rw [length_of_mapM h, List.length_range]⟩
    obtain ⟨j, -, hj⟩ := exists_of_mem_mapM h hz
    exact scalar_dot? (fun x hxm => hx x (mem_of_mem_row hxm)) hj
  · rename_i h1 h2 h3
    obtain ⟨hk, hl⟩ := componentwise?_spec (fun _ _ _ => scalar_arith?) hx h
    refine ⟨hk, ?_⟩
    rw [Ty.eq_of_broadcast? (Ty.broadcast?_of_product? h1 h2 h3 ht), hl hxl hyl]
    rfl

theorem length_diagonal (f : FloatArith F) (s : Scalar) (columns rows : Nat) (x : Datum F) :
    (diagonal f s columns rows x).length = columns * rows := by
  rw [diagonal, List.length_map, List.length_range]

theorem scalar_of_mem_diagonal {columns rows : Nat} {x c : Datum F}
    (hx : x.scalar = s) (h : c ∈ diagonal f s columns rows x) : c.scalar = s := by
  obtain ⟨k, -, rfl⟩ := List.mem_map.mp h
  split
  · exact hx
  · exact scalar_zero f s

theorem scalar_of_mem_resize? {columns rows columns' rows' : Nat}
    {cs : List (Datum F)} (h : resize? f s columns rows columns' rows' xs = some cs)
    {c : Datum F} (hc : c ∈ cs) : c.scalar = s := by
  obtain ⟨k, -, hk⟩ := exists_of_mem_mapM h hc
  dsimp only at hk
  split at hk
  · obtain ⟨x, -, rfl⟩ := Option.map_eq_some_iff.mp hk
    exact scalar_convert f s x
  · cases hk
    split
    · exact scalar_one f s
    · exact scalar_zero f s

end Datum

namespace Value

variable {structs : List (String × MemberTypes)} {v : Value F} {cs : List (Datum F)} {f : FloatArith F}
  {args : List (Ty × Value F)} {name : String}

/-- Only scalars, vectors and matrices have components. -/
theorem HasType.components_of {t : Ty} (h : HasType structs v t) (hc : v.components? = some cs) :
    ∃ s shape, t = ⟨.value s shape, none⟩ ∧ cs.length = shape.components ∧
      ∀ c ∈ cs, c.scalar = s := by
  cases h with
  | data length kinds =>
    cases hc
    exact ⟨_, _, rfl, length, kinds⟩
  | array | record | handle | nothing => cases hc

/-- **The result of an operation with one operand has the operand's type.** -/
theorem unary?_hasType {op : UnaryOp} {w : Value F} {t : Ty}
    (h : HasType structs v t) (hw : v.unary? f op = some w) : HasType structs w t := by
  cases h with
  | data length kinds =>
    obtain ⟨cs, hcs, rfl⟩ := Option.map_eq_some_iff.mp hw
    refine .data (by rw [length_of_mapM hcs, length]) (fun c hc => ?_)
    obtain ⟨x, hx, hxc⟩ := exists_of_mem_mapM hcs hc
    rw [Datum.scalar_unary? hxc, kinds x hx]
  | array | record | handle | nothing => cases hw

/-- **The result of an operation on numbers has the type that the type rules give.** -/
theorem arith?_hasType {op : ArithOp} {l r t : Ty} {w u : Value F}
    (ht : (BinaryOp.arith op).result? l r = some t) (hv : HasType structs v l)
    (hw : HasType structs w r) (hu : arith? f op l r v w = some u) : HasType structs u t := by
  simp only [arith?, Option.bind_eq_bind, Option.bind_eq_some_iff] at hu
  obtain ⟨xs, hxs, ys, hys, hu⟩ := hu
  obtain ⟨s, lsh, rfl, hxl, hxk⟩ := hv.components_of hxs
  obtain ⟨s', rsh, rfl, hyl, -⟩ := hw.components_of hys
  by_cases hop : op = .mul
  · subst hop
    have hp : Ty.product? ⟨.value s lsh, none⟩ ⟨.value s' rsh, none⟩ = some t := ht
    obtain ⟨rfl, shape, rfl⟩ := Ty.product?_value hp
    simp only [hp, Option.bind_some, Option.map_eq_map, Option.map_eq_some_iff] at hu
    obtain ⟨zs, hzs, rfl⟩ := hu
    obtain ⟨hk, hl⟩ := Datum.product?_spec hxk hxl hyl hp hzs
    exact .data hl hk
  · obtain ⟨rfl, -⟩ := BinaryOp.result?_arith hop ht
    have hc : (.data <$> Datum.componentwise? (Datum.arith? f op) lsh rsh xs ys) = some u := by
      cases op with
      | mul => exact (hop rfl).elim
      | _ => exact hu
    obtain ⟨zs, hzs, rfl⟩ := Option.map_eq_some_iff.mp hc
    obtain ⟨hk, hl⟩ := Datum.componentwise?_spec (fun _ _ _ => Datum.scalar_arith?) hxk hzs
    exact .data (hl hxl hyl) hk

theorem bool_hasType (b : Bool) : HasType (F := F) structs (.data [.bool b]) .bool := by
  refine .data rfl (fun c hc => ?_)
  rw [List.mem_singleton.mp hc]
  rfl

theorem compare?_hasType {op : CompareOp} {w u : Value F}
    (h : compare? f op v w = some u) : HasType structs u .bool := by
  unfold compare? at h
  split at h
  · cases h; exact bool_hasType _
  · cases h; exact bool_hasType _
  · split at h
    · obtain ⟨b, -, rfl⟩ := Option.map_eq_some_iff.mp h
      exact bool_hasType b
    · cases h

/-- A constructed scalar, vector or matrix has as many components as its shape, all of the kind
that is asked for. -/
theorem constructData?_spec {s : Scalar} {shape : Shape}
    (h : constructData? f s shape args = some cs) :
    cs.length = shape.components ∧ ∀ c ∈ cs, c.scalar = s := by
  unfold constructData? at h
  split at h
  · cases h
    exact ⟨Datum.length_diagonal f s _ _ _,
      fun c hc => Datum.scalar_of_mem_diagonal (Datum.scalar_convert f s _) hc⟩
  · cases h
    refine ⟨List.length_replicate, fun c hc => ?_⟩
    rw [List.eq_of_mem_replicate hc, Datum.scalar_convert]
  · refine ⟨?_, fun c hc => Datum.scalar_of_mem_resize? h hc⟩
    rw [length_of_mapM h, List.length_range]
    rfl
  · simp only [Option.bind_eq_bind, Option.bind_eq_some_iff] at h
    obtain ⟨ds, -, h⟩ := h
    split at h
    · rename_i hle
      cases h
      refine ⟨by rw [List.length_map, List.length_take, Nat.min_eq_left hle], fun c hc => ?_⟩
      obtain ⟨d, -, rfl⟩ := List.mem_map.mp hc
      exact Datum.scalar_convert f s d
    · cases h

/-- A structure with the right members in order is a value of its type. -/
theorem record_hasType {members : MemberTypes} (hm : structs.lookup name = some members)
    (htypes : args.map (·.1) = members.map (·.2)) (hargs : ∀ a ∈ args, HasType structs a.2 a.1) :
    HasType structs (.record ((members.map (·.1)).zip (args.map (·.2)))) ⟨.struct name, none⟩ := by
  have hlen : args.length = members.length := by
    simpa only [List.length_map] using congrArg List.length htypes
  refine .record hm (List.map_fst_zip (by simp [hlen])) ?_
  intro i x m hx hmi
  obtain ⟨-, hv⟩ := List.getElem?_zip_eq_some.mp hx
  obtain ⟨a, ha, hav⟩ := List.getElem?_map ▸ hv |> Option.map_eq_some_iff.mp
  have ht : a.1 = m.2 := by
    have hi := congrArg (·[i]?) htypes
    simpa [ha, hmi] using hi
  rw [← hav, ← ht]
  exact hargs a (List.mem_of_getElem? ha)

/-- The types of the members of a structure. -/
def memberTypes (structs : List (String × MemberTypes)) (t : Ty) : List Ty :=
  match t.base with
  | .struct name => ((structs.lookup name).getD []).map (·.2)
  | _ => []

theorem eq_of_structProblem? {members args : List Ty}
    (h : Ty.structProblem? name members args = none) : args = members := by
  unfold Ty.structProblem? at h
  split at h
  · cases h
  · rename_i hlen
    have hlen : args.length = members.length := not_not.mp hlen
    rw [Option.map_eq_none_iff, List.find?_eq_none] at h
    refine List.ext_getElem hlen (fun i h1 h2 => ?_)
    have hi : i < (args.zip members).length := by rw [List.length_zip]; omega
    have hz : (args[i], members[i]) ∈ args.zip members := by
      have hm := List.getElem_mem hi
      rwa [List.getElem_zip] at hm
    simpa using h _ hz

theorem eq_of_arrayProblem? {target : Ty} {size : Nat} {args : List Ty}
    (h : Ty.arrayProblem? target size args = none) :
    args.length = size ∧ ∀ t ∈ args, t = target.element := by
  unfold Ty.arrayProblem? at h
  split at h
  · cases h
  · rename_i hlen
    rw [Option.map_eq_none_iff, List.find?_eq_none] at h
    exact ⟨not_not.mp hlen, fun t ht => by simpa using h t ht⟩

/-- **What a constructor makes of arguments that the rules accept has the type of the
constructor.** -/
theorem construct?_hasType {ty : Ty} (herror : (args.map (·.1)).any Ty.isError = false)
    (hp : ty.constructorProblem? (args.map (·.1)) (memberTypes structs ty) = none)
    (hargs : ∀ a ∈ args, HasType structs a.2 a.1) (h : construct? f structs ty args = some v) :
    HasType structs v ty := by
  rw [Ty.constructorProblem?, herror, if_neg Bool.false_ne_true] at hp
  split at hp
  · cases hp
  obtain ⟨base, array⟩ := ty
  cases array with
  | some size =>
    obtain ⟨hlen, htypes⟩ := eq_of_arrayProblem? hp
    cases h
    refine .array (by rw [List.length_map] at hlen ⊢; exact hlen) (fun x hx => ?_)
    obtain ⟨a, ha, rfl⟩ := List.mem_map.mp hx
    have ht : a.1 = ⟨base, none⟩ := htypes a.1 (List.mem_map_of_mem ha)
    exact ht ▸ hargs a ha
  | none =>
    cases base with
    | struct name =>
      obtain ⟨members, hm, rfl⟩ := Option.map_eq_some_iff.mp h
      refine record_hasType hm ?_ hargs
      have htypes := eq_of_structProblem? hp
      simpa [memberTypes, hm] using htypes
    | value s shape =>
      obtain ⟨cs, hcs, rfl⟩ := Option.map_eq_some_iff.mp h
      obtain ⟨hl, hk⟩ := constructData?_spec hcs
      exact .data hl hk
    | void | sampler _ | error => cases h

end Value

end GlslEs
