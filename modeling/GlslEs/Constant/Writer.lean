import GlslEs.Constant

/-!
# Writing constants

The shortest spelling of a constant.  A floating-point number has a point or an exponent,
whichever is shorter, and no zero in front of the point unless nothing follows it.
-/

namespace GlslEs

namespace Decimal

/-- The digits with a point, and without a single zero in front of a fraction. -/
def pointed (d : Decimal) : String :=
  match d.positionalParts with
  | (['0'], c :: fraction) => String.ofList ('.' :: c :: fraction)
  | (whole, fraction) => String.ofList (whole ++ '.' :: fraction)

/-- The shorter of the two layouts; of equally long ones the one with a point. -/
def brief (d : Decimal) : String :=
  if d.scientific.length < d.pointed.length then d.scientific else d.pointed

end Decimal

namespace Single

/-- The spelling of a value; what is not finite is written as a quotient. -/
def spelling (x : Single) : String :=
  match x.value with
  | .nan => "(0./0.)"
  | .infinite negative => if negative then "(-1./0.)" else "(1./0.)"
  | .finite negative m e =>
    let text := (if m = 0 then ⟨0, 0⟩ else Decimal.shortest FloatFormat.single m e).brief
    if negative then "-" ++ text else text

/-- Whether the spelling starts with a minus sign of its own. -/
def isNegative (x : Single) : Bool :=
  match x.value with
  | .nan => false
  | .infinite negative => negative
  | .finite negative _ _ => negative

end Single

namespace Constant

def spelling : Constant → String
  | .float x => x.spelling
  | .int n => toString n.toInt
  | .uint n => toString n.toNat ++ "u"
  | .bool b => if b then "true" else "false"

def isNegative : Constant → Bool
  | .float x => x.isNegative
  | .int n => n < 0
  | _ => false

end Constant

end GlslEs
