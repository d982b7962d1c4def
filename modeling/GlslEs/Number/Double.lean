import GlslEs.Number.Decimal

/-!
# Values with 64 bits

The floating-point numbers of limit tables and configuration files.  A `Double` is its bit
pattern.
-/

namespace GlslEs

/-- A floating-point value with 64 bits. -/
structure Double where
  bits : UInt64
deriving DecidableEq, Repr, Inhabited

namespace Double

def ofBits (bits : Nat) : Double := ⟨UInt64.ofNat bits⟩

def value (x : Double) : FloatValue := FloatFormat.double.decode x.bits.toNat

def ofInt (n : Int) : Double := ofBits (FloatFormat.double.round (n < 0) n.natAbs 1)

def ofDecimal (negative : Bool) (d : Decimal) : Double :=
  ofBits (d.toBits FloatFormat.double negative)

def infinity (negative : Bool) : Double := ofBits (FloatFormat.double.encode (.infinite negative))

def nan : Double := ofBits FloatFormat.double.nanBits

def mul (x y : Double) : Double := ofBits (FloatFormat.double.mul x.bits.toNat y.bits.toNat)

def div (x y : Double) : Double := ofBits (FloatFormat.double.div x.bits.toNat y.bits.toNat)

def neg (x : Double) : Double := ofBits (FloatFormat.double.negBits x.bits.toNat)

/-- Whether the value is neither infinite nor not a number. -/
def isFinite (x : Double) : Bool :=
  match x.value with
  | .finite .. => true
  | _ => false

def isNan (x : Double) : Bool := x.value == .nan

/-- The order of the values; what is not a number has none. -/
def compare? (x y : Double) : Option Ordering := x.value.compare? y.value

/-- The value without its fraction, kept between the ends of 64 bits with sign. -/
def toInt (x : Double) : Int := x.value.truncate (-0x8000000000000000) 0x7FFFFFFFFFFFFFFF

/-- The fewest digits that read back, with the sign; nothing for a value that is not finite. -/
def digits? (x : Double) : Option (Bool × Decimal) :=
  match x.value with
  | .finite negative m e =>
    some (negative, if m = 0 then ⟨0, 0⟩ else Decimal.shortest FloatFormat.double m e)
  | _ => none

/-- The text of the value: positional, with the fewest digits that read back. -/
def toText (x : Double) : String :=
  match x.value with
  | .nan => "NaN"
  | .infinite negative => if negative then "-inf" else "inf"
  | .finite negative m e =>
    let text := if m = 0 then "0" else (Decimal.shortest FloatFormat.double m e).positional
    if negative then "-" ++ text else text

end Double

end GlslEs
