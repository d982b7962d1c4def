import GlslEs.Number.Decimal

/-!
# Values with 32 bits

The floating-point numbers of the shading language.  A `Single` is its bit pattern; every
operation decodes, computes exactly and rounds once.
-/

namespace GlslEs

/-- A floating-point value with 32 bits. -/
structure Single where
  bits : UInt32
deriving DecidableEq, Repr, Inhabited

namespace Single

def ofBits (bits : Nat) : Single := ⟨UInt32.ofNat bits⟩

def value (x : Single) : FloatValue := FloatFormat.single.decode x.bits.toNat

def zero : Single := ⟨0⟩

def one : Single := ⟨0x3f800000⟩

def ofInt (n : Int) : Single := ofBits (FloatFormat.single.round (n < 0) n.natAbs 1)

def ofDecimal (d : Decimal) : Single := ofBits (d.toBits FloatFormat.single false)

def add (x y : Single) : Single := ofBits (FloatFormat.single.add x.bits.toNat y.bits.toNat)

def sub (x y : Single) : Single := ofBits (FloatFormat.single.sub x.bits.toNat y.bits.toNat)

def mul (x y : Single) : Single := ofBits (FloatFormat.single.mul x.bits.toNat y.bits.toNat)

def div (x y : Single) : Single := ofBits (FloatFormat.single.div x.bits.toNat y.bits.toNat)

def neg (x : Single) : Single := ofBits (FloatFormat.single.negBits x.bits.toNat)

instance : Add Single := ⟨add⟩
instance : Sub Single := ⟨sub⟩
instance : Mul Single := ⟨mul⟩
instance : Div Single := ⟨div⟩
instance : Neg Single := ⟨neg⟩

/-- The order of the values; what is not a number has none. -/
def compare? (x y : Single) : Option Ordering := x.value.compare? y.value

/-- Equality of values: the two zeros agree, and what is not a number differs from itself. -/
def eqv (x y : Single) : Bool := x.compare? y == some .eq

def isNan (x : Single) : Bool := x.value == .nan

/-- The value without its fraction as a signed word; values out of reach go to the nearest
end. -/
def toInt32 (x : Single) : Int32 := Int32.ofInt (x.value.truncate (-0x80000000) 0x7FFFFFFF)

/-- The value without its fraction as an unsigned word; values out of reach go to the
nearest end. -/
def toUInt32 (x : Single) : UInt32 := UInt32.ofNat (x.value.truncate 0 0xFFFFFFFF).toNat

/-- The text of the value: positional, with the fewest digits that read back. -/
def toText (x : Single) : String :=
  match x.value with
  | .nan => "NaN"
  | .infinite negative => if negative then "-inf" else "inf"
  | .finite negative m e =>
    let text := if m = 0 then "0" else (Decimal.shortest FloatFormat.single m e).positional
    if negative then "-" ++ text else text

end Single

end GlslEs
