import GlslEs.Number.Format

/-!
# Decimal text of floating-point values

A `Decimal` is `significand * 10 ^ exponent`.  Reading a decimal rounds it to a format once.
Writing takes the fewest digits that read back to the same value: on each decimal grid, from
the coarsest down, the two neighbours of the value are tested against the interval of reals
that round to it; the first grid with a hit gives the digits, the nearer neighbour winning and
a tie going up.

* `Decimal.toBits`: the pattern nearest to a decimal.
* `Decimal.shortest`: the fewest digits of a positive finite value.
* `Decimal.positional`, `Decimal.scientific`: the two layouts.
-/

namespace GlslEs

/-- The number `significand * 10 ^ exponent`. -/
structure Decimal where
  significand : Nat
  exponent : Int
deriving DecidableEq, Repr

namespace Decimal

/-- The value of one digit, in any base up to sixteen. -/
def digitValue (c : Char) : Nat :=
  if c.isDigit then c.toNat - '0'.toNat
  else if 'a' ≤ c && c ≤ 'f' then c.toNat - 'a'.toNat + 10
  else if 'A' ≤ c && c ≤ 'F' then c.toNat - 'A'.toNat + 10
  else 0

/-- The number that a run of digits spells in a base. -/
def ofDigits (base : Nat) (digits : List Char) : Nat :=
  digits.foldl (fun n c => n * base + digitValue c) 0

/-- The decimal digits of a number, the first one first. -/
def digitChars (n : Nat) : List Char :=
  Nat.toDigits 10 n

/-! ### Reading -/

/-- Past this exponent every nonzero decimal of the format is zero or infinity. -/
def exponentReach (f : FloatFormat) : Int :=
  (Nat.pow 2 f.exponentBits : Nat)

def toBits (f : FloatFormat) (negative : Bool) (d : Decimal) : Nat :=
  if d.significand = 0 then f.signed negative 0
  else
    let top : Int := (digitChars d.significand).length + d.exponent
    if exponentReach f < top then f.signed negative f.infinityBits
    else if top < -exponentReach f then f.signed negative 0
    else if 0 ≤ d.exponent then
      f.round negative (d.significand * Nat.pow 10 d.exponent.toNat) 1
    else
      f.round negative d.significand (Nat.pow 10 (-d.exponent).toNat)

/-- The decimal with the given digits before and after the point and the given exponent. -/
def ofParts (whole fraction : List Char) (exponent : Int) : Decimal :=
  ⟨ofDigits 10 (whole ++ fraction), exponent - fraction.length⟩

/-! ### Writing -/

/-- The reals that round to a value, in quarters of its last place: `low`, the value and
`high`, times `2 ^ (exponent - 2)`.  The ends belong to it when its significand is even. -/
structure Rounding where
  low : Nat
  value : Nat
  high : Nat
  exponent : Int
  closed : Bool
deriving DecidableEq, Repr

/-- The rounding interval of a positive finite value.  Below a power of two the gap is half
as wide. -/
def rounding (f : FloatFormat) (significand : Nat) (exponent : Int) : Rounding where
  low := 4 * significand - (if significand = Nat.pow 2 f.fractionBits then 1 else 2)
  value := 4 * significand
  high := 4 * significand + 2
  exponent := exponent - 2
  closed := significand % 2 == 0

/-- The multiple of `10 ^ k` nearest to the value among the two around it, if it lies in the
interval. -/
def onGrid (r : Rounding) (k : Int) : Option Decimal :=
  let up := Nat.pow 2 r.exponent.toNat * Nat.pow 10 (-k).toNat
  let unit := Nat.pow 2 (-r.exponent).toNat * Nat.pow 10 k.toNat
  let inside (n : Nat) : Bool :=
    if r.closed then r.low * up ≤ n * unit && n * unit ≤ r.high * up
    else r.low * up < n * unit && n * unit < r.high * up
  let n := r.value * up / unit
  let rest := r.value * up % unit
  match inside n, inside (n + 1) with
  | true, true => some ⟨if unit ≤ 2 * rest then n + 1 else n, k⟩
  | true, false => some ⟨n, k⟩
  | false, true => some ⟨n + 1, k⟩
  | false, false => none

/-- The first grid with a hit, from `10 ^ k` down. -/
def firstGrid (r : Rounding) : Nat → Int → Option Decimal
  | 0, _ => none
  | fuel + 1, k =>
    match onGrid r k with
    | some d => some d
    | none => firstGrid r fuel (k - 1)

/-- More digits than any value of a format with up to 64 bits needs. -/
def maxDigits : Nat := 24

/-- The fewest decimal digits that read back to a positive finite value. -/
def shortest (f : FloatFormat) (significand : Nat) (exponent : Int) : Decimal :=
  let (n, d) := FloatFormat.scale significand 1 (-exponent)
  let top : Int :=
    if d ≤ n then (digitChars (n / d)).length else 1 - ((digitChars (d / n)).length : Int) + 1
  (firstGrid (rounding f significand exponent) maxDigits top).getD ⟨0, 0⟩

/-! ### Layouts -/

/-- The position of the point relative to the first digit: `0.d₁d₂… * 10 ^ point`. -/
def point (d : Decimal) : Int :=
  (digitChars d.significand).length + d.exponent

/-- The digits in front of the point and after it, without exponent. -/
def positionalParts (d : Decimal) : List Char × List Char :=
  let digits := digitChars d.significand
  if 0 ≤ d.exponent then (digits ++ List.replicate d.exponent.toNat '0', [])
  else
    let after := (-d.exponent).toNat
    if after < digits.length then digits.splitAt (digits.length - after)
    else (['0'], List.replicate (after - digits.length) '0' ++ digits)

/-- Without exponent; a point only in front of a fraction. -/
def positional (d : Decimal) : String :=
  match positionalParts d with
  | (whole, []) => String.ofList whole
  | (whole, fraction) => String.ofList (whole ++ '.' :: fraction)

/-- One digit in front of the point, the power of ten after the letter `e`. -/
def scientific (d : Decimal) : String :=
  let power := toString (d.point - 1)
  match digitChars d.significand with
  | [] => "0e0"
  | [c] => String.ofList [c] ++ "e" ++ power
  | c :: cs => String.ofList (c :: '.' :: cs) ++ "e" ++ power

end Decimal

end GlslEs
