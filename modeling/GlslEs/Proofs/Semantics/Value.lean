import GlslEs.Resolve.Expr

/-!
# Values

What an expression means is a value: the components of a scalar, a vector or a matrix, the items
of an array, the members of a structure.  Integers are words of 32 bits.  Floating-point numbers
are taken from any carrier with the laws of `FloatArith`, which speak of zero and one alone; in
particular no carrier has to know signed zeros or what is not a number.

* `FloatArith`: a carrier of floating-point numbers.
* `Value`: the values of all types; a matrix is the list of its columns.
* `Value.HasType`: which values a type has.
-/

namespace GlslEs

/-! ### Floating-point numbers -/

/-- Floating-point numbers with the laws that rewriting zeros and ones away relies on.
Conversions have to be exact at zero and one only. -/
structure FloatArith (F : Type) where
  zero : F
  one : F
  add : F → F → F
  sub : F → F → F
  mul : F → F → F
  div : F → F → F
  neg : F → F
  eq : F → F → Bool
  ne : F → F → Bool
  lt : F → F → Bool
  gt : F → F → Bool
  le : F → F → Bool
  ge : F → F → Bool
  ofSingle : Single → F
  ofInt32 : Int32 → F
  ofUInt32 : UInt32 → F
  toInt32 : F → Int32
  toUInt32 : F → UInt32
  toBool : F → Bool
  add_zero : ∀ x, add x zero = x
  zero_add : ∀ x, add zero x = x
  sub_zero : ∀ x, sub x zero = x
  zero_sub : ∀ x, sub zero x = neg x
  mul_one : ∀ x, mul x one = x
  one_mul : ∀ x, mul one x = x
  div_one : ∀ x, div x one = x
  neg_neg : ∀ x, neg (neg x) = x
  ne_eq_not_eq : ∀ x y, ne x y = !eq x y
  ofSingle_zero : ofSingle .zero = zero
  ofSingle_one : ofSingle .one = one
  ofInt32_zero : ofInt32 0 = zero
  ofInt32_one : ofInt32 1 = one
  ofUInt32_zero : ofUInt32 0 = zero
  ofUInt32_one : ofUInt32 1 = one
  toInt32_zero : toInt32 zero = 0
  toInt32_one : toInt32 one = 1
  toUInt32_zero : toUInt32 zero = 0
  toUInt32_one : toUInt32 one = 1
  toBool_zero : toBool zero = false
  toBool_one : toBool one = true

/-- The order of a carrier is total: a comparison fails exactly where the opposite one holds. -/
structure FloatArith.TotalOrder {F : Type} (f : FloatArith F) : Prop where
  ge_eq_not_lt : ∀ x y, f.ge x y = !f.lt x y
  le_eq_not_gt : ∀ x y, f.le x y = !f.gt x y

/-! ### Values -/

/-- A component. -/
inductive Datum (F : Type) where
  | float (x : F)
  | int (n : Int32)
  | uint (n : UInt32)
  | bool (b : Bool)

/-- A value.  A sampler is only a handle; a function without a result gives `nothing`. -/
inductive Value (F : Type) where
  | data (components : List (Datum F))
  | array (items : List (Value F))
  | record (members : List (String × Value F))
  | handle (id : Nat)
  | nothing

namespace Datum

variable {F : Type}

/-- The kind of a component. -/
def scalar : Datum F → Scalar
  | .float _ => .float
  | .int _ => .int
  | .uint _ => .uint
  | .bool _ => .bool

/-- The component that a constant stands for. -/
def ofConstant (f : FloatArith F) : Constant → Datum F
  | .float x => .float (f.ofSingle x)
  | .int n => .int n
  | .uint n => .uint n
  | .bool b => .bool b

/-- Zero as a number of some kind, or the truth value that converts to it. -/
def zero (f : FloatArith F) : Scalar → Datum F
  | .float => .float f.zero
  | .int => .int 0
  | .uint => .uint 0
  | .bool => .bool false

/-- One as a number of some kind, or the truth value that converts to it. -/
def one (f : FloatArith F) : Scalar → Datum F
  | .float => .float f.one
  | .int => .int 1
  | .uint => .uint 1
  | .bool => .bool true

@[simp] theorem scalar_ofConstant (f : FloatArith F) (c : Constant) :
    (ofConstant f c).scalar = c.scalar := by
  cases c <;> rfl

@[simp] theorem scalar_zero (f : FloatArith F) (s : Scalar) : (zero f s).scalar = s := by
  cases s <;> rfl

@[simp] theorem scalar_one (f : FloatArith F) (s : Scalar) : (one f s).scalar = s := by
  cases s <;> rfl

end Datum

/-! ### Types of values -/

namespace Value

variable {F : Type} {v : Value F}

/-- The values of a type, where a table gives the members of structures. -/
inductive HasType (structs : List (String × MemberTypes)) : Value F → Ty → Prop
  | data {s : Scalar} {shape : Shape} {cs : List (Datum F)} (length : cs.length = shape.components)
      (kinds : ∀ c ∈ cs, c.scalar = s) : HasType structs (.data cs) ⟨.value s shape, none⟩
  | array {base : Base} {size : Nat} {items : List (Value F)} (length : items.length = size)
      (typed : ∀ v ∈ items, HasType structs v ⟨base, none⟩) :
      HasType structs (.array items) ⟨base, some size⟩
  | record {name : String} {members : MemberTypes} {fields : List (String × Value F)}
      (found : structs.lookup name = some members) (names : fields.map (·.1) = members.map (·.1))
      (typed : ∀ (i : Nat) (x : String × Value F) (m : String × Ty), fields[i]? = some x →
        members[i]? = some m → HasType structs x.2 m.2) :
      HasType structs (.record fields) ⟨.struct name, none⟩
  | handle {s : Sampler} (id : Nat) : HasType structs (.handle id) ⟨.sampler s, none⟩
  | nothing : HasType structs .nothing .void

variable {structs : List (String × MemberTypes)}

/-- A value of a scalar, vector or matrix type is a list of components. -/
theorem HasType.data_of {s : Scalar} {shape : Shape}
    (h : HasType structs v ⟨.value s shape, none⟩) :
    ∃ cs, v = .data cs ∧ cs.length = shape.components ∧ ∀ c ∈ cs, c.scalar = s := by
  cases h with
  | data length kinds => exact ⟨_, rfl, length, kinds⟩

theorem HasType.array_of {base : Base} {size : Nat} (h : HasType structs v ⟨base, some size⟩) :
    ∃ items, v = .array items ∧ items.length = size ∧
      ∀ x ∈ items, HasType structs x ⟨base, none⟩ := by
  cases h with
  | array length typed => exact ⟨_, rfl, length, typed⟩

/-- A value of a scalar type is one component. -/
theorem HasType.single_of {s : Scalar} (h : HasType structs v (.ofScalar s)) :
    ∃ c, v = .data [c] ∧ c.scalar = s := by
  obtain ⟨cs, rfl, hlen, hk⟩ := h.data_of
  obtain ⟨c, rfl⟩ := List.length_eq_one_iff.mp hlen
  exact ⟨c, rfl, hk c (by simp)⟩

theorem HasType.bool_of (h : HasType structs v .bool) : ∃ b, v = .data [.bool b] := by
  obtain ⟨c, rfl, hc⟩ := h.single_of
  cases c with
  | bool b => exact ⟨b, rfl⟩
  | float x | int n | uint n => cases hc

end Value

end GlslEs
