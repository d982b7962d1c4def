import GlslEs.Json

/-!
# Reading JSON

The grammar of JSON without extensions.  A number without point and exponent that fits 64
bits with sign is an integer.  Any other number is a `Double` made from its first digits, as
many as fit 64 bits, by one multiplication or division by a power of ten; that is quick and
not always the nearest value.

* `Json.parse?`: the value that a text spells, if it spells one.
-/

namespace GlslEs.Json

/-! ### Numbers -/

def maxWord : Nat := 0xFFFFFFFFFFFFFFFF

/-- Digits added to a significand for as long as it fits 64 bits: the significand, how many
digits were added and the rest of the text. -/
def takeDigits : Nat → List Char → Nat × Nat × List Char
  | n, [] => (n, 0, [])
  | n, c :: cs =>
    if c.isDigit && n * 10 + Decimal.digitValue c ≤ maxWord then
      let (m, count, rest) := takeDigits (n * 10 + Decimal.digitValue c) cs
      (m, count + 1, rest)
    else (n, 0, c :: cs)

/-- The digits that a text starts with, counted, and the rest of the text. -/
def skipDigits (cs : List Char) : Nat × List Char :=
  let digits := cs.takeWhile Char.isDigit
  (digits.length, cs.drop digits.length)

/-- A power of ten as a `Double`. -/
def tenPower (n : Nat) : Double := .ofDecimal false ⟨1, n⟩

/-- Divides by `10 ^ n` in steps of at most `10 ^ 308`. -/
def divTenPower : Nat → Double → Nat → Double
  | 0, x, _ => x
  | fuel + 1, x, n =>
    if n ≤ 308 then x.div (tenPower n) else divTenPower fuel (x.div (tenPower 308)) (n - 308)

/-- The number `significand * 10 ^ exponent`; nothing past the largest finite value. -/
def scaled? (negative : Bool) (significand : Nat) (exponent : Int) : Option Double :=
  let x := Double.ofInt significand
  let signed (y : Double) := if negative then y.neg else y
  if exponent < 0 then some (signed (divTenPower 4 x (-exponent).toNat))
  else if exponent ≤ 308 then
    let y := x.mul (tenPower exponent.toNat)
    if y.isFinite then some (signed y) else none
  else if significand = 0 then some (signed x)
  else none

/-- The exponent that a text starts with after its letter, and the rest of the text. -/
def readPower (cs : List Char) : Option (Int × List Char) :=
  let (negative, cs) := match cs with
    | '+' :: cs => (false, cs)
    | '-' :: cs => (true, cs)
    | cs => (false, cs)
  let digits := cs.takeWhile Char.isDigit
  if digits.isEmpty then none
  else
    let n : Int := Decimal.ofDigits 10 digits
    some (if negative then -n else n, cs.drop digits.length)

/-- A number after its digits: the optional exponent. -/
def finishFloat (negative : Bool) (significand : Nat) (exponent : Int) (cs : List Char) :
    Option (Json × List Char) := do
  let (power, rest) ← match cs with
    | 'e' :: cs => readPower cs
    | 'E' :: cs => readPower cs
    | cs => some (0, cs)
  return (.float (← scaled? negative significand (exponent + power)), rest)

/-- A number after its integer digits: the optional fraction, then the exponent. -/
def readFraction (negative : Bool) (significand : Nat) (exponent : Int) (cs : List Char) :
    Option (Json × List Char) :=
  match cs with
  | '.' :: cs =>
    let (n, count, rest) := takeDigits significand cs
    let (ignored, rest) := skipDigits rest
    if count + ignored = 0 then none
    else finishFloat negative n (exponent - count) rest
  | cs => finishFloat negative significand exponent cs

def finishInteger (negative : Bool) (significand : Nat) (cs : List Char) :
    Option (Json × List Char) :=
  match cs with
  | '.' :: _ => readFraction negative significand 0 cs
  | 'e' :: _ => readFraction negative significand 0 cs
  | 'E' :: _ => readFraction negative significand 0 cs
  | _ =>
    let value : Int := if negative then -(significand : Int) else significand
    if -0x8000000000000000 ≤ value && value ≤ 0x7FFFFFFFFFFFFFFF && !(negative && significand == 0) then
      some (.int value, cs)
    else
      let x := Double.ofInt significand
      some (.float (if negative then x.neg else x), cs)

def readUnsigned (negative : Bool) : List Char → Option (Json × List Char)
  | [] => none
  | '0' :: cs =>
    match cs with
    | c :: _ => if c.isDigit then none else finishInteger negative 0 cs
    | [] => finishInteger negative 0 cs
  | c :: cs =>
    if !c.isDigit then none
    else
      let (n, _, rest) := takeDigits 0 (c :: cs)
      match skipDigits rest with
      | (0, rest) => finishInteger negative n rest
      | (dropped, rest) => readFraction negative n dropped rest

def readNumber : List Char → Option (Json × List Char)
  | '-' :: cs => readUnsigned true cs
  | cs => readUnsigned false cs

/-! ### Texts -/

def readHex4 : List Char → Option (Nat × List Char)
  | a :: b :: c :: d :: rest =>
    let isHex (x : Char) : Bool :=
      x.isDigit || ('a' ≤ x && x ≤ 'f') || ('A' ≤ x && x ≤ 'F')
    if [a, b, c, d].all isHex then some (Decimal.ofDigits 16 [a, b, c, d], rest) else none
  | _ => none

/-- The character of a `\u` escape; two halves of a pair make one character. -/
def readUnicode (cs : List Char) : Option (Char × List Char) := do
  let (high, rest) ← readHex4 cs
  if 0xDC00 ≤ high && high ≤ 0xDFFF then none
  else if 0xD800 ≤ high && high ≤ 0xDBFF then
    match rest with
    | '\\' :: 'u' :: rest => do
      let (low, rest) ← readHex4 rest
      if 0xDC00 ≤ low && low ≤ 0xDFFF then
        return (Char.ofNat (0x10000 + (high - 0xD800) * 0x400 + (low - 0xDC00)), rest)
      else none
    | _ => none
  else return (Char.ofNat high, rest)

def simpleEscape? : Char → Option Char
  | '"' => some '"'
  | '\\' => some '\\'
  | '/' => some '/'
  | 'b' => some (Char.ofNat 8)
  | 'f' => some (Char.ofNat 12)
  | 'n' => some '\n'
  | 'r' => some '\r'
  | 't' => some '\t'
  | _ => none

/-- The characters up to the closing quote.  The length of the text is enough fuel. -/
def readChars : Nat → List Char → List Char → Option (String × List Char)
  | 0, _, _ => none
  | _ + 1, _, [] => none
  | _ + 1, found, '"' :: rest => some (String.ofList found.reverse, rest)
  | fuel + 1, found, '\\' :: 'u' :: rest =>
    match readUnicode rest with
    | some (c, rest) => readChars fuel (c :: found) rest
    | none => none
  | fuel + 1, found, '\\' :: c :: rest =>
    match simpleEscape? c with
    | some c => readChars fuel (c :: found) rest
    | none => none
  | fuel + 1, found, c :: rest =>
    if c.toNat < 32 || c == '\\' then none else readChars fuel (c :: found) rest

/-! ### Values -/

def skipBlanks (cs : List Char) : List Char :=
  cs.dropWhile fun c => c == ' ' || c == '\n' || c == '\t' || c == '\r'

def afterWord? (word : String) (cs : List Char) : Option (List Char) :=
  if word.toList.isPrefixOf cs then some (cs.drop word.length) else none

mutual

/-- A value, from a text that starts with no blank. -/
def readValue : Nat → List Char → Option (Json × List Char)
  | 0, _ => none
  | fuel + 1, cs =>
    match cs with
    | 'n' :: _ => (afterWord? "null" cs).map (.null, ·)
    | 't' :: _ => (afterWord? "true" cs).map (.bool true, ·)
    | 'f' :: _ => (afterWord? "false" cs).map (.bool false, ·)
    | '"' :: rest => (readChars (rest.length + 1) [] rest).map fun (s, rest) => (.string s, rest)
    | '[' :: rest =>
      match skipBlanks rest with
      | ']' :: rest => some (.array [], rest)
      | rest => (readElements fuel [] rest).map fun (es, rest) => (.array es, rest)
    | '\x7b' :: rest =>
      match skipBlanks rest with
      | '\x7d' :: rest => some (.object [], rest)
      | rest => (readMembers fuel [] rest).map fun (ms, rest) => (.object ms, rest)
    | _ => readNumber cs

/-- The elements of an array up to its closing bracket. -/
def readElements : Nat → List Json → List Char → Option (List Json × List Char)
  | 0, _, _ => none
  | fuel + 1, found, cs =>
    match readValue fuel (skipBlanks cs) with
    | none => none
    | some (value, rest) =>
      match skipBlanks rest with
      | ',' :: rest => readElements fuel (value :: found) rest
      | ']' :: rest => some ((value :: found).reverse, rest)
      | _ => none

/-- The members of an object up to its closing brace. -/
def readMembers : Nat → List (String × Json) → List Char →
    Option (List (String × Json) × List Char)
  | 0, _, _ => none
  | fuel + 1, found, cs =>
    match skipBlanks cs with
    | '"' :: rest =>
      match readChars (rest.length + 1) [] rest with
      | none => none
      | some (key, rest) =>
        match skipBlanks rest with
        | ':' :: rest =>
          match readValue fuel (skipBlanks rest) with
          | none => none
          | some (value, rest) =>
            match skipBlanks rest with
            | ',' :: rest => readMembers fuel ((key, value) :: found) rest
            | '\x7d' :: rest => some (((key, value) :: found).reverse, rest)
            | _ => none
        | _ => none
    | _ => none

end

def parse? (text : String) : Option Json :=
  let cs := text.toList
  match readValue (cs.length + 1) (skipBlanks cs) with
  | some (value, rest) => if (skipBlanks rest).isEmpty then some value else none
  | none => none

end GlslEs.Json
