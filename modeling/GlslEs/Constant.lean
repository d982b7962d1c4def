import GlslEs.Number.Single
import GlslEs.Ty

/-!
# Constants

The scalar constants of the language: 32-bit floating-point values, integers with and without
sign, and truth values.
-/

namespace GlslEs

/-- A scalar constant. -/
inductive Constant where
  | float (value : Single)
  | int (value : Int32)
  | uint (value : UInt32)
  | bool (value : Bool)
deriving DecidableEq, Repr, Inhabited

namespace Constant

def scalar : Constant → Scalar
  | .float _ => .float
  | .int _ => .int
  | .uint _ => .uint
  | .bool _ => .bool

def ty (c : Constant) : Ty := .ofScalar c.scalar

def isPositiveZero : Constant → Bool
  | .float x => x == .zero
  | .int x => x == 0
  | .uint x => x == 0
  | .bool _ => false

def isOne : Constant → Bool
  | .float x => x == .one
  | .int x => x == 1
  | .uint x => x == 1
  | .bool _ => false

end Constant

end GlslEs
