/-!
# Binary floating-point formats

An interchange format is given by the width of its fraction and of its exponent.  A bit
pattern, read as a natural number, decodes to a `FloatValue`, and a fraction of two natural
numbers is rounded to the nearest pattern, a tie going to the even one.

All arithmetic here is exact arithmetic on natural numbers followed by one rounding, so the
operations of `Single` and `Double` are plain functions that can be reasoned about.

* `FloatFormat.decode`: what a pattern stands for.
* `FloatFormat.round`: the pattern nearest to a fraction.
* `FloatFormat.add`, `mul`, `div`: the operations on patterns.
-/

namespace GlslEs

/-- The widths of the fraction and the exponent of a binary format. -/
structure FloatFormat where
  fractionBits : Nat
  exponentBits : Nat
deriving DecidableEq, Repr

/-- What a bit pattern stands for: a finite value is `significand * 2 ^ exponent`. -/
inductive FloatValue where
  | nan
  | infinite (negative : Bool)
  | finite (negative : Bool) (significand : Nat) (exponent : Int)
deriving DecidableEq, Repr

namespace FloatFormat

def single : FloatFormat := ⟨23, 8⟩

def double : FloatFormat := ⟨52, 11⟩

variable (f : FloatFormat)

def signWeight : Nat := Nat.pow 2 (f.fractionBits + f.exponentBits)

def infinityBits : Nat := (Nat.pow 2 f.exponentBits - 1) * Nat.pow 2 f.fractionBits

/-- The pattern used for every result that is not a number. -/
def nanBits : Nat := f.infinityBits + Nat.pow 2 (f.fractionBits - 1)

/-- The exponent of the last place of the smallest values. -/
def minExponent : Int := 2 - (Nat.pow 2 (f.exponentBits - 1) : Nat) - f.fractionBits

/-- Puts the sign in front of a pattern without sign. -/
def signed (negative : Bool) (bits : Nat) : Nat :=
  if negative then f.signWeight + bits else bits

def decode (bits : Nat) : FloatValue :=
  let negative := f.signWeight ≤ bits
  let magnitude := bits % f.signWeight
  let field := magnitude / Nat.pow 2 f.fractionBits
  let fraction := magnitude % Nat.pow 2 f.fractionBits
  if field = Nat.pow 2 f.exponentBits - 1 then
    if fraction = 0 then .infinite negative else .nan
  else if field = 0 then
    .finite negative fraction f.minExponent
  else
    .finite negative (Nat.pow 2 f.fractionBits + fraction) (f.minExponent + field - 1)

/-! ### Rounding -/

/-- The quotient rounded to the nearest natural number, a half to the even one. -/
def divHalfEven (num den : Nat) : Nat :=
  let q := num / den
  let twice := 2 * (num % den)
  if den < twice || (twice == den && q % 2 == 1) then q + 1 else q

/-- `num / den` scaled by `2 ^ (-shift)`, as a fraction of natural numbers. -/
def scale (num den : Nat) (shift : Int) : Nat × Nat :=
  if 0 ≤ shift then (num, den * Nat.pow 2 shift.toNat) else (num * Nat.pow 2 (-shift).toNat, den)

/-- The largest `e` with `2 ^ e ≤ num / den`, for a positive fraction. -/
def binaryExponent (num den : Nat) : Int :=
  let e : Int := (num.log2 : Int) - den.log2
  let (n, d) := scale num den e
  if n < d then e - 1 else e

/-- The pattern nearest to `num / den`; a fraction past the largest finite value gives
infinity. -/
def round (negative : Bool) (num den : Nat) : Nat :=
  if num = 0 then f.signed negative 0
  else
    let q := max (binaryExponent num den - f.fractionBits) f.minExponent
    let (n, d) := scale num den q
    let bits := (q - f.minExponent).toNat * Nat.pow 2 f.fractionBits + divHalfEven n d
    f.signed negative (min bits f.infinityBits)

/-- The pattern nearest to `significand * 2 ^ exponent`. -/
def roundScaled (negative : Bool) (significand : Nat) (exponent : Int) : Nat :=
  let (n, d) := scale significand 1 (-exponent)
  f.round negative n d

def encode : FloatValue → Nat
  | .nan => f.nanBits
  | .infinite negative => f.signed negative f.infinityBits
  | .finite negative significand exponent => f.roundScaled negative significand exponent

/-! ### Arithmetic -/

/-- A significand with its sign, moved down to a smaller exponent. -/
def aligned (negative : Bool) (significand : Nat) (exponent target : Int) : Int :=
  let n : Int := (significand * Nat.pow 2 (exponent - target).toNat : Nat)
  if negative then -n else n

def addValues : FloatValue → FloatValue → Nat
  | .nan, _ => f.nanBits
  | _, .nan => f.nanBits
  | .infinite a, .infinite b => if a = b then f.signed a f.infinityBits else f.nanBits
  | .infinite a, .finite .. => f.signed a f.infinityBits
  | .finite .., .infinite b => f.signed b f.infinityBits
  | .finite s m e, .finite s' m' e' =>
    let target := min e e'
    let sum := aligned s m e target + aligned s' m' e' target
    if sum = 0 then f.signed (s && s') 0
    else f.roundScaled (sum < 0) sum.natAbs target

def mulValues : FloatValue → FloatValue → Nat
  | .nan, _ => f.nanBits
  | _, .nan => f.nanBits
  | .infinite a, .infinite b => f.signed (a != b) f.infinityBits
  | .infinite a, .finite s m _ =>
    if m = 0 then f.nanBits else f.signed (a != s) f.infinityBits
  | .finite s m _, .infinite b =>
    if m = 0 then f.nanBits else f.signed (s != b) f.infinityBits
  | .finite s m e, .finite s' m' e' => f.roundScaled (s != s') (m * m') (e + e')

def divValues : FloatValue → FloatValue → Nat
  | .nan, _ => f.nanBits
  | _, .nan => f.nanBits
  | .infinite _, .infinite _ => f.nanBits
  | .infinite a, .finite s _ _ => f.signed (a != s) f.infinityBits
  | .finite s _ _, .infinite b => f.signed (s != b) 0
  | .finite s m e, .finite s' m' e' =>
    if m' = 0 then if m = 0 then f.nanBits else f.signed (s != s') f.infinityBits
    else
      let (n, d) := scale m m' (e' - e)
      f.round (s != s') n d

/-- Changes the sign of a pattern, also that of zero. -/
def negBits (bits : Nat) : Nat :=
  if f.signWeight ≤ bits then bits - f.signWeight else bits + f.signWeight

def add (a b : Nat) : Nat := f.addValues (f.decode a) (f.decode b)

def sub (a b : Nat) : Nat := f.addValues (f.decode a) (f.decode (f.negBits b))

def mul (a b : Nat) : Nat := f.mulValues (f.decode a) (f.decode b)

def div (a b : Nat) : Nat := f.divValues (f.decode a) (f.decode b)

end FloatFormat

namespace FloatValue

/-- The order of the extended reals; a value that is not a number has none. -/
def compare? : FloatValue → FloatValue → Option Ordering
  | .nan, _ => none
  | _, .nan => none
  | .infinite a, .infinite b =>
    some (if a = b then .eq else if a then .lt else .gt)
  | .infinite a, .finite .. => some (if a then .lt else .gt)
  | .finite .., .infinite b => some (if b then .gt else .lt)
  | .finite s m e, .finite s' m' e' =>
    let target := min e e'
    some (compare (FloatFormat.aligned s m e target) (FloatFormat.aligned s' m' e' target))

/-- The value without its fraction, kept between `lo` and `hi`; what is not a number
counts as zero. -/
def truncate (lo hi : Int) : FloatValue → Int
  | .nan => 0
  | .infinite negative => if negative then lo else hi
  | .finite negative m e =>
    let (n, d) := FloatFormat.scale m 1 (-e)
    let whole : Int := n / d
    max lo (min hi (if negative then -whole else whole))

end FloatValue

end GlslEs
