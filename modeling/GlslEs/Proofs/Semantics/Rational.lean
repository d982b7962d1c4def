import Mathlib.Algebra.Order.Field.Rat
import Mathlib.Tactic.NormNum
import GlslEs.Proofs.Semantics.Value

/-!
# Exact arithmetic

The rational numbers are a carrier of floating-point numbers on which every operation is exact
and the order is total.
-/

namespace GlslEs

/-- The rational number that a floating-point value stands for; what is not finite counts as
zero. -/
def Single.toRat (x : Single) : ℚ :=
  match x.value with
  | .finite negative m e => (if negative then -1 else 1) * m * 2 ^ e
  | _ => 0

namespace FloatArith

/-- The rational numbers. -/
def rational : FloatArith ℚ where
  zero := 0
  one := 1
  add := (· + ·)
  sub := (· - ·)
  mul := (· * ·)
  div := (· / ·)
  neg := (- ·)
  eq x y := x == y
  ne x y := x != y
  lt x y := x < y
  gt x y := x > y
  le x y := x ≤ y
  ge x y := x ≥ y
  ofSingle := Single.toRat
  ofInt32 n := n.toInt
  ofUInt32 n := n.toNat
  toInt32 x := Int32.ofInt (x.num.tdiv x.den)
  toUInt32 x := UInt32.ofNat (x.num.tdiv x.den).toNat
  toBool x := x != 0
  add_zero x := by simp
  zero_add x := by simp
  sub_zero x := by simp
  zero_sub x := by simp
  mul_one x := by simp
  one_mul x := by simp
  div_one x := by simp
  neg_neg x := by simp
  ne_eq_not_eq _ _ := rfl
  ofSingle_zero := by
    have h : Single.zero.value = .finite false 0 (-149) := rfl
    simp [Single.toRat, h]
  ofSingle_one := by
    have h : Single.one.value = .finite false 8388608 (-23) := rfl
    norm_num [Single.toRat, h]
  ofInt32_zero := rfl
  ofInt32_one := rfl
  ofUInt32_zero := rfl
  ofUInt32_one := rfl
  toInt32_zero := rfl
  toInt32_one := rfl
  toUInt32_zero := rfl
  toUInt32_one := rfl
  toBool_zero := rfl
  toBool_one := rfl

theorem totalOrder_rational : rational.TotalOrder where
  ge_eq_not_lt x y := by simp [rational, ← decide_not]
  le_eq_not_gt x y := by simp [rational, ← decide_not]

end FloatArith

end GlslEs
