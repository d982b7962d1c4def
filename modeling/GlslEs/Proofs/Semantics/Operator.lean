import Mathlib.Data.List.Forall2
import GlslEs.Proofs.Semantics.Value

/-!
# Operations on values

Operators work component by component; a scalar operand is used with every component of the
other one.  Products of matrices and vectors are those of linear algebra.  What the language
leaves undefined has no result: division of integers by zero, shifts past the width of a word.

* `Value.unary?`, `Value.arith?`, `Value.compare?`: the operators.
* `Value.construct?`: the constructors.
-/

namespace GlslEs

variable {F : Type}

/-! ### Partial maps over lists -/

theorem forall₂_of_mapM {α β : Type} {f : α → Option β} {as : List α} {bs : List β}
    (h : as.mapM f = some bs) : List.Forall₂ (fun a b => f a = some b) as bs := by
  induction as generalizing bs with
  | nil =>
    simp only [List.mapM_nil, Option.pure_def, Option.some.injEq] at h
    subst h
    exact .nil
  | cons a as ih =>
    simp only [List.mapM_cons, Option.bind_eq_bind, Option.bind_eq_some_iff, Option.pure_def,
      Option.some.injEq] at h
    obtain ⟨b, hb, bs', hbs, rfl⟩ := h
    exact .cons hb (ih hbs)

theorem mapM_of_forall₂ {α β : Type} {f : α → Option β} {as : List α} {bs : List β}
    (h : List.Forall₂ (fun a b => f a = some b) as bs) : as.mapM f = some bs := by
  induction h with
  | nil => rfl
  | cons hb _ ih => simp [hb, ih]

theorem length_of_mapM {α β : Type} {f : α → Option β} {as : List α} {bs : List β}
    (h : as.mapM f = some bs) : bs.length = as.length :=
  (forall₂_of_mapM h).length_eq.symm

/-- Every result of a partial map comes from an element. -/
theorem exists_of_mem_mapM {α β : Type} {f : α → Option β} {as : List α} {bs : List β}
    (h : as.mapM f = some bs) {b : β} (hb : b ∈ bs) : ∃ a ∈ as, f a = some b := by
  have h2 := forall₂_of_mapM h
  clear h
  induction h2 with
  | nil => simp at hb
  | cons h _ ih =>
    rcases List.mem_cons.mp hb with rfl | hb
    · exact ⟨_, by simp, h⟩
    · obtain ⟨a, ha, hf⟩ := ih hb
      exact ⟨a, by simp [ha], hf⟩

/-- Two lists of one length through a partial function, element by element. -/
def zipM? {α β γ : Type} (g : α → β → Option γ) (as : List α) (bs : List β) : Option (List γ) :=
  if as.length = bs.length then (as.zip bs).mapM fun (a, b) => g a b else none

theorem zipM?_length {α β γ : Type} {g : α → β → Option γ} {as : List α} {bs : List β}
    {cs : List γ} (h : zipM? g as bs = some cs) : cs.length = as.length := by
  rw [zipM?] at h
  split at h
  · rename_i hl
    rw [length_of_mapM h, List.length_zip, hl, Nat.min_self]
  · cases h

theorem exists_of_mem_zipM? {α β γ : Type} {g : α → β → Option γ} {as : List α} {bs : List β}
    {cs : List γ} (h : zipM? g as bs = some cs) {c : γ} (hc : c ∈ cs) :
    ∃ a ∈ as, ∃ b ∈ bs, g a b = some c := by
  rw [zipM?] at h
  split at h
  · obtain ⟨⟨a, b⟩, hab, hg⟩ := exists_of_mem_mapM h hc
    exact ⟨a, (List.of_mem_zip hab).1, b, (List.of_mem_zip hab).2, hg⟩
  · cases h

/-! ### Operations on components -/

namespace Datum

/-- An operation with one operand; increments change a variable and are no operation on
components. -/
def unary? (f : FloatArith F) : UnaryOp → Datum F → Option (Datum F)
  | .plus, x => some x
  | .minus, .float x => some (.float (f.neg x))
  | .minus, .int n => some (.int (-n))
  | .minus, .uint n => some (.uint (-n))
  | .not, .bool b => some (.bool !b)
  | .bitNot, .int n => some (.int (~~~n))
  | .bitNot, .uint n => some (.uint (~~~n))
  | _, _ => none

/-- By how many places a component shifts, if fewer than a word has. -/
def shiftCount? : Datum F → Option Nat
  | .int n => if 0 ≤ n.toInt && n.toInt < 32 then some n.toInt.toNat else none
  | .uint n => if n.toNat < 32 then some n.toNat else none
  | _ => none

/-- An operation on two words with sign. -/
def intArith? (op : ArithOp) (x y : Int32) : Option Int32 :=
  match op with
  | .add => some (x + y)
  | .sub => some (x - y)
  | .mul => some (x * y)
  | .div => if y = 0 then none else some (x / y)
  | .mod => if y = 0 then none else some (x % y)
  | .bitAnd => some (x &&& y)
  | .bitOr => some (x ||| y)
  | .bitXor => some (x ^^^ y)
  | .shl | .shr => none

/-- An operation on two words without sign. -/
def uintArith? (op : ArithOp) (x y : UInt32) : Option UInt32 :=
  match op with
  | .add => some (x + y)
  | .sub => some (x - y)
  | .mul => some (x * y)
  | .div => if y = 0 then none else some (x / y)
  | .mod => if y = 0 then none else some (x % y)
  | .bitAnd => some (x &&& y)
  | .bitOr => some (x ||| y)
  | .bitXor => some (x ^^^ y)
  | .shl | .shr => none

/-- An operation on two floating-point numbers. -/
def floatArith? (f : FloatArith F) (op : ArithOp) (x y : F) : Option F :=
  match op with
  | .add => some (f.add x y)
  | .sub => some (f.sub x y)
  | .mul => some (f.mul x y)
  | .div => some (f.div x y)
  | _ => none

/-- A shift of an integer. -/
def shift? (left : Bool) (x amount : Datum F) : Option (Datum F) :=
  match x, shiftCount? amount with
  | .int x, some n =>
    some (.int (if left then x <<< Int32.ofNat n else x >>> Int32.ofNat n))
  | .uint x, some n =>
    some (.uint (if left then x <<< UInt32.ofNat n else x >>> UInt32.ofNat n))
  | _, _ => none

/-- An operation on two components. -/
def arith? (f : FloatArith F) (op : ArithOp) (x y : Datum F) : Option (Datum F) :=
  match op with
  | .shl => shift? true x y
  | .shr => shift? false x y
  | op =>
    match x, y with
    | .float x, .float y => (floatArith? f op x y).map .float
    | .int x, .int y => (intArith? op x y).map .int
    | .uint x, .uint y => (uintArith? op x y).map .uint
    | _, _ => none

/-- Whether two components are equal. -/
def eqv (f : FloatArith F) : Datum F → Datum F → Bool
  | .float x, .float y => f.eq x y
  | .int x, .int y => x == y
  | .uint x, .uint y => x == y
  | .bool x, .bool y => x == y
  | _, _ => false

/-- Whether two components differ. -/
def nev (f : FloatArith F) : Datum F → Datum F → Bool
  | .float x, .float y => f.ne x y
  | .int x, .int y => x != y
  | .uint x, .uint y => x != y
  | .bool x, .bool y => x != y
  | _, _ => true

/-- The outcome of a comparison that asks for an order. -/
def orders (op : CompareOp) (o : Ordering) : Bool :=
  match op with
  | .lt => o.isLT
  | .gt => o.isGT
  | .le => o.isLE
  | .ge => o.isGE
  | .eq => o.isEq
  | .ne => o.isNe

/-- The outcome of a comparison of floating-point numbers. -/
def floatOrders (f : FloatArith F) : CompareOp → F → F → Bool
  | .lt => f.lt
  | .gt => f.gt
  | .le => f.le
  | .ge => f.ge
  | .eq => f.eq
  | .ne => f.ne

/-- A comparison of two numbers by their order. -/
def order? (f : FloatArith F) (op : CompareOp) : Datum F → Datum F → Option Bool
  | .float x, .float y => some (floatOrders f op x y)
  | .int x, .int y => some (orders op (compare x.toInt y.toInt))
  | .uint x, .uint y => some (orders op (compare x.toNat y.toNat))
  | _, _ => none

/-- An operation on two truth values. -/
def logic (op : LogicOp) (x y : Bool) : Bool :=
  match op with
  | .and => x && y
  | .or => x || y
  | .xor => x != y

/-- A component as another kind of scalar. -/
def convert (f : FloatArith F) (target : Scalar) : Datum F → Datum F
  | .float x =>
    match target with
    | .float => .float x
    | .int => .int (f.toInt32 x)
    | .uint => .uint (f.toUInt32 x)
    | .bool => .bool (f.toBool x)
  | .int n =>
    match target with
    | .float => .float (f.ofInt32 n)
    | .int => .int n
    | .uint => .uint n.toUInt32
    | .bool => .bool (n != 0)
  | .uint n =>
    match target with
    | .float => .float (f.ofUInt32 n)
    | .int => .int n.toInt32
    | .uint => .uint n
    | .bool => .bool (n != 0)
  | .bool b =>
    match target with
    | .float => .float (if b then f.one else f.zero)
    | .int => .int (if b then 1 else 0)
    | .uint => .uint (if b then 1 else 0)
    | .bool => .bool b

@[simp] theorem scalar_convert (f : FloatArith F) (target : Scalar) (x : Datum F) :
    (convert f target x).scalar = target := by
  cases x <;> cases target <;> rfl

theorem scalar_unary? {f : FloatArith F} {op : UnaryOp} {x y : Datum F}
    (h : unary? f op x = some y) : y.scalar = x.scalar := by
  cases op <;> cases x <;> cases h <;> rfl

theorem scalar_shift? {left : Bool} {x y z : Datum F} (h : shift? left x y = some z) :
    z.scalar = x.scalar := by
  unfold shift? at h
  split at h <;> cases h <;> rfl

theorem scalar_arith? {f : FloatArith F} {op : ArithOp} {x y z : Datum F}
    (h : arith? f op x y = some z) : z.scalar = x.scalar := by
  unfold arith? at h
  split at h
  · exact scalar_shift? h
  · exact scalar_shift? h
  · split at h
    all_goals first
      | (obtain ⟨w, -, rfl⟩ := Option.map_eq_some_iff.mp h; rfl)
      | cases h

/-- Two components differ exactly where they are not equal. -/
theorem nev_eq_not_eqv (f : FloatArith F) (x y : Datum F) : nev f x y = !eqv f x y := by
  cases x <;> cases y <;> first | rfl | exact f.ne_eq_not_eq _ _

end Datum

/-! ### Operations on lists of components -/

namespace Datum

/-- An operation component by component, where a scalar serves every component of the other
side. -/
def componentwise? (g : Datum F → Datum F → Option (Datum F)) (left right : Shape)
    (xs ys : List (Datum F)) : Option (List (Datum F)) :=
  if left = right then zipM? g xs ys
  else if left = .scalar then
    match xs with
    | [x] => ys.mapM fun y => g x y
    | _ => none
  else if right = .scalar then
    match ys with
    | [y] => xs.mapM fun x => g x y
    | _ => none
  else none

/-- The sum of products of components. -/
def dot? (f : FloatArith F) (xs ys : List (Datum F)) : Option (Datum F) := do
  match ← zipM? (arith? f .mul) xs ys with
  | [] => none
  | p :: ps => ps.foldlM (arith? f .add) p

/-- A column of a matrix. -/
def column (rows j : Nat) (xs : List (Datum F)) : List (Datum F) :=
  (xs.drop (j * rows)).take rows

/-- A row of a matrix. -/
def row (columns rows i : Nat) (xs : List (Datum F)) : List (Datum F) :=
  (List.range columns).filterMap fun j => xs[j * rows + i]?

/-- The product of two lists of components; `size` is the number of components of the result. -/
def product? (f : FloatArith F) (left right : Shape) (size : Nat) (xs ys : List (Datum F)) :
    Option (List (Datum F)) :=
  match left, right with
  | .vector _, .matrix _ rows => (List.range size).mapM fun j => dot? f xs (column rows j ys)
  | .matrix columns rows, .vector _ =>
    (List.range size).mapM fun i => dot? f (row columns rows i xs) ys
  | .matrix columns rows, .matrix _ rows' =>
    (List.range size).mapM fun k =>
      dot? f (row columns rows (k % rows) xs) (column rows' (k / rows) ys)
  | _, _ => componentwise? (arith? f .mul) left right xs ys

/-- A matrix with one component on its diagonal. -/
def diagonal (f : FloatArith F) (s : Scalar) (columns rows : Nat) (x : Datum F) : List (Datum F) :=
  (List.range (columns * rows)).map fun k => if k / rows = k % rows then x else zero f s

/-- A matrix cut out of another one; what is missing comes from the unit matrix. -/
def resize? (f : FloatArith F) (s : Scalar) (columns rows columns' rows' : Nat)
    (xs : List (Datum F)) : Option (List (Datum F)) :=
  (List.range (columns * rows)).mapM fun k =>
    let j := k / rows
    let i := k % rows
    if j < columns' ∧ i < rows' then xs[j * rows' + i]?.map (convert f s)
    else some (if j = i then one f s else zero f s)

end Datum

/-! ### Operations on values -/

namespace Value

/-- The components of a scalar, vector or matrix. -/
def components? : Value F → Option (List (Datum F))
  | .data cs => some cs
  | _ => none

mutual

/-- All components in a value, through arrays and structures. -/
def leaves : Value F → List (Datum F)
  | .data cs => cs
  | .array items => leavesAll items
  | .record members => leavesOf members
  | .handle _ => []
  | .nothing => []

/-- All components in several values. -/
def leavesAll : List (Value F) → List (Datum F)
  | [] => []
  | v :: vs => leaves v ++ leavesAll vs

/-- All components in the members of a structure. -/
def leavesOf : List (String × Value F) → List (Datum F)
  | [] => []
  | (_, v) :: vs => leaves v ++ leavesOf vs

end

/-- Whether two values are equal in every component. -/
def eqv (f : FloatArith F) (v w : Value F) : Bool :=
  v.leaves.length == w.leaves.length && (v.leaves.zip w.leaves).all fun (x, y) => x.eqv f y

/-- Whether two values differ in some component. -/
def nev (f : FloatArith F) (v w : Value F) : Bool :=
  v.leaves.length != w.leaves.length || (v.leaves.zip w.leaves).any fun (x, y) => x.nev f y

/-- An operation with one operand. -/
def unary? (f : FloatArith F) (op : UnaryOp) : Value F → Option (Value F)
  | .data cs => (cs.mapM (Datum.unary? f op)).map .data
  | _ => none

/-- A sum, difference, product and so on of values of two types. -/
def arith? (f : FloatArith F) (op : ArithOp) (left right : Ty) (v w : Value F) :
    Option (Value F) := do
  let xs ← v.components?
  let ys ← w.components?
  match op with
  | .mul =>
    let result ← left.product? right
    .data <$> Datum.product? f left.shape right.shape result.components xs ys
  | op => .data <$> Datum.componentwise? (Datum.arith? f op) left.shape right.shape xs ys

/-- A comparison of two values. -/
def compare? (f : FloatArith F) (op : CompareOp) (v w : Value F) : Option (Value F) :=
  match op with
  | .eq => some (.data [.bool (v.eqv f w)])
  | .ne => some (.data [.bool (v.nev f w)])
  | op =>
    match v, w with
    | .data [x], .data [y] => (Datum.order? f op x y).map fun b => .data [.bool b]
    | _, _ => none

/-- The constructed components of a scalar, vector or matrix from arguments with their types. -/
def constructData? (f : FloatArith F) (s : Scalar) (shape : Shape) (args : List (Ty × Value F)) :
    Option (List (Datum F)) :=
  match args, shape with
  | [(⟨.value _ .scalar, none⟩, .data [x])], .matrix columns rows =>
    some (Datum.diagonal f s columns rows (x.convert f s))
  | [(⟨.value _ .scalar, none⟩, .data [x])], _ =>
    some (List.replicate shape.components (x.convert f s))
  | [(⟨.value _ (.matrix columns' rows'), none⟩, .data cs)], .matrix columns rows =>
    Datum.resize? f s columns rows columns' rows' cs
  | _, _ => do
    let cs := (← args.mapM fun a => a.2.components?).flatten
    if shape.components ≤ cs.length then
      some ((cs.take shape.components).map (Datum.convert f s))
    else none

/-- The value that a constructor makes of arguments with their types. -/
def construct? (f : FloatArith F) (structs : List (String × MemberTypes)) (ty : Ty)
    (args : List (Ty × Value F)) : Option (Value F) :=
  match ty with
  | ⟨_, some _⟩ => some (.array (args.map (·.2)))
  | ⟨.struct name, none⟩ =>
    (structs.lookup name).map fun members =>
      .record ((members.map (·.1)).zip (args.map (·.2)))
  | ⟨.value s shape, none⟩ => (constructData? f s shape args).map .data
  | _ => none

/-- Two values differ exactly where they are not equal. -/
theorem nev_eq_not_eqv (f : FloatArith F) (v w : Value F) : v.nev f w = !v.eqv f w := by
  rw [nev, eqv, Bool.not_and, List.not_all_eq_any_not]
  congr 2
  funext ⟨x, y⟩
  exact Datum.nev_eq_not_eqv f x y

end Value

end GlslEs
