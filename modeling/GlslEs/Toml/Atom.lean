import GlslEs.Toml

/-!
# Reading single TOML values

Texts in quotes, on one line or over several, and the words without quotes: truth values,
numbers, dates and times.

* `Toml.readText`: the text that a quote opens.
* `Toml.readWord`: the value that a word spells.
-/

namespace GlslEs.Toml

/-! ### Characters -/

def skipBlanks (cs : List Char) : List Char :=
  cs.dropWhile fun c => c == ' ' || c == '\t'

/-- Whether a character may stand in a comment or in a text. -/
def isPrintable (c : Char) : Bool :=
  c == '\t' || (32 ≤ c.toNat && c.toNat != 127)

def afterLineEnd? : List Char → Option (List Char)
  | '\n' :: rest => some rest
  | '\r' :: '\n' :: rest => some rest
  | _ => none

/-! ### Texts -/

def isHexDigit (c : Char) : Bool :=
  c.isDigit || ('a' ≤ c && c ≤ 'f') || ('A' ≤ c && c ≤ 'F')

def hexChar? (digits : List Char) : Option Char :=
  let code := Decimal.ofDigits 16 digits
  if digits.all isHexDigit && (code < 0xD800 || (0xDFFF < code && code < 0x110000)) then
    some (Char.ofNat code)
  else none

def letterEscape? : Char → Option Char
  | '"' => some '"'
  | '\\' => some '\\'
  | 'b' => some (Char.ofNat 8)
  | 't' => some '\t'
  | 'n' => some '\n'
  | 'f' => some (Char.ofNat 12)
  | 'r' => some '\r'
  | _ => none

/-- One more character in front of a text that has been read. -/
def consChar (c : Option Char) (rest : Option (List Char × List Char)) :
    Option (List Char × List Char) :=
  match c, rest with
  | some c, some (found, rest) => some (c :: found, rest)
  | _, _ => none

def readQuoted : List Char → Option (List Char × List Char)
  | [] => none
  | '"' :: rest => some ([], rest)
  | '\\' :: 'u' :: a :: b :: c :: d :: rest => consChar (hexChar? [a, b, c, d]) (readQuoted rest)
  | '\\' :: 'U' :: a :: b :: c :: d :: e :: f :: g :: h :: rest =>
    consChar (hexChar? [a, b, c, d, e, f, g, h]) (readQuoted rest)
  | '\\' :: c :: rest => consChar (letterEscape? c) (readQuoted rest)
  | c :: rest =>
    if c == '\\' || !isPrintable c then none else consChar (some c) (readQuoted rest)

def readLiteral : List Char → Option (List Char × List Char)
  | [] => none
  | c :: rest =>
    if c == '\x27' then some ([], rest)
    else if isPrintable c then consChar (some c) (readLiteral rest)
    else none

/-- The end of a text over several lines, after three quotes: up to two quotes more belong to the
text, so that the last three close it. -/
def closeBlock (quote : Char) (cs : List Char) : List Char × List Char :=
  let inside := (cs.takeWhile (· == quote)).take 2
  (inside, cs.drop inside.length)

/-- The characters up to three closing double quotes.  A backslash at the end of a line leaves
out everything up to the next character that is no blank; `skipping` says that such blanks are
being left out. -/
def readQuotedBlock (skipping : Bool) : List Char → Option (List Char × List Char)
  | [] => none
  | '"' :: '"' :: '"' :: rest => some (closeBlock '"' rest)
  | '\r' :: '\n' :: rest =>
    if skipping then readQuotedBlock true rest
    else consChar (some '\n') (readQuotedBlock false rest)
  | '\n' :: rest =>
    if skipping then readQuotedBlock true rest
    else consChar (some '\n') (readQuotedBlock false rest)
  | '\\' :: 'u' :: a :: b :: c :: d :: rest =>
    consChar (hexChar? [a, b, c, d]) (readQuotedBlock false rest)
  | '\\' :: 'U' :: a :: b :: c :: d :: e :: f :: g :: h :: rest =>
    consChar (hexChar? [a, b, c, d, e, f, g, h]) (readQuotedBlock false rest)
  | '\\' :: c :: rest =>
    if (afterLineEnd? (skipBlanks (c :: rest))).isSome then readQuotedBlock true (c :: rest)
    else consChar (letterEscape? c) (readQuotedBlock false rest)
  | c :: rest =>
    if skipping && (c == ' ' || c == '\t') then readQuotedBlock true rest
    else if c == '\\' || !isPrintable c then none
    else consChar (some c) (readQuotedBlock false rest)

/-- The characters up to three closing single quotes. -/
def readLiteralBlock : List Char → Option (List Char × List Char)
  | [] => none
  | '\x27' :: '\x27' :: '\x27' :: rest => some (closeBlock '\x27' rest)
  | '\r' :: '\n' :: rest => consChar (some '\n') (readLiteralBlock rest)
  | c :: rest =>
    if c == '\n' || isPrintable c then consChar (some c) (readLiteralBlock rest) else none

def dropLineEnd (cs : List Char) : List Char := (afterLineEnd? cs).getD cs

def readText (cs : List Char) : Option (String × List Char) :=
  let found := match cs with
    | '"' :: '"' :: '"' :: rest => readQuotedBlock false (dropLineEnd rest)
    | '"' :: rest => readQuoted rest
    | '\x27' :: '\x27' :: '\x27' :: rest => readLiteralBlock (dropLineEnd rest)
    | '\x27' :: rest => readLiteral rest
    | _ => none
  found.map fun (text, rest) => (String.ofList text, rest)

/-! ### Numbers -/

/-- The digits of a number in which single underscores may stand between digits. -/
def plainDigits? (isDigit : Char → Bool) : List Char → Option (List Char)
  | [] => none
  | [c] => if isDigit c then some [c] else none
  | c :: '_' :: rest => if isDigit c then (plainDigits? isDigit rest).map (c :: ·) else none
  | c :: rest => if isDigit c then (plainDigits? isDigit rest).map (c :: ·) else none

/-- The digits of a number that starts with no superfluous zero. -/
def wholeDigits? (cs : List Char) : Option (List Char) :=
  (plainDigits? Char.isDigit cs).filter fun digits =>
    match digits with
    | '0' :: _ :: _ => false
    | _ => true

def dropSign : List Char → Bool × List Char
  | '+' :: cs => (false, cs)
  | '-' :: cs => (true, cs)
  | cs => (false, cs)

def intAtom? (negative : Bool) (n : Nat) : Option Atom :=
  let value : Int := if negative then -(n : Int) else n
  if -0x8000000000000000 ≤ value && value ≤ 0x7FFFFFFFFFFFFFFF then some (.int value) else none

/-- An integer in another base than ten, after its first two characters. -/
def basedAtom? (base : Nat) (digits : List Char) : Option Atom :=
  let isDigit (c : Char) : Bool := isHexDigit c && Decimal.digitValue c < base
  (plainDigits? isDigit digits).bind fun digits =>
    intAtom? false (Decimal.ofDigits base digits)

/-- Whether a character is a digit or stands between digits. -/
def isDigitOrGap (c : Char) : Bool := c.isDigit || c == '_'

/-- The value of the digits after the letter of an exponent. -/
def power? (cs : List Char) : Option Int :=
  let (negative, digits) := dropSign cs
  (plainDigits? Char.isDigit digits).map fun digits =>
    let n : Int := Decimal.ofDigits 10 digits
    if negative then -n else n

/-- A number with its digits and its exponent; past the largest value only below zero. -/
def floatAtom? (negative : Bool) (whole fraction : List Char) (power : Int) : Option Atom :=
  let x := Double.ofDecimal negative (.ofParts whole fraction power)
  if x == Double.infinity false then none else some (.float x)

/-- A number without its sign, which ends with what follows its whole digits. -/
def unsignedAtom? (negative : Bool) (cs : List Char) : Option Atom := do
  let part := cs.takeWhile isDigitOrGap
  let whole ← wholeDigits? part
  match cs.drop part.length with
  | [] => intAtom? negative (Decimal.ofDigits 10 whole)
  | '.' :: cs =>
    let part := cs.takeWhile isDigitOrGap
    let fraction ← plainDigits? Char.isDigit part
    match cs.drop part.length with
    | [] => floatAtom? negative whole fraction 0
    | 'e' :: cs => floatAtom? negative whole fraction (← power? cs)
    | 'E' :: cs => floatAtom? negative whole fraction (← power? cs)
    | _ => none
  | 'e' :: cs => floatAtom? negative whole [] (← power? cs)
  | 'E' :: cs => floatAtom? negative whole [] (← power? cs)
  | _ => none

/-! ### Dates and times -/

def isTwoDigits (least greatest : Nat) (a b : Char) : Bool :=
  a.isDigit && b.isDigit &&
    (let n := Decimal.ofDigits 10 [a, b]
     least ≤ n && n ≤ greatest)

def daysOfMonth (year month : Nat) : Nat :=
  let isLeap := year % 4 = 0 && (year % 100 != 0 || year % 400 = 0)
  if month = 2 then (if isLeap then 29 else 28)
  else if month = 4 || month = 6 || month = 9 || month = 11 then 30
  else 31

/-- The text after a date of year, month and day. -/
def afterDate? : List Char → Option (List Char)
  | y₁ :: y₂ :: y₃ :: y₄ :: '-' :: m₁ :: m₂ :: '-' :: d₁ :: d₂ :: rest =>
    let year := [y₁, y₂, y₃, y₄]
    let days := daysOfMonth (Decimal.ofDigits 10 year) (Decimal.ofDigits 10 [m₁, m₂])
    if year.all Char.isDigit && isTwoDigits 1 12 m₁ m₂ && isTwoDigits 1 days d₁ d₂ then some rest
    else none
  | _ => none

/-- The text after the fraction of a second, which may be missing. -/
def afterFraction? : List Char → Option (List Char)
  | '.' :: rest =>
    let digits := rest.takeWhile Char.isDigit
    if digits.isEmpty then none else some (rest.drop digits.length)
  | rest => some rest

/-- The text after a time of hour, minute and second; a second may be put in at the end of a
minute. -/
def afterTime? : List Char → Option (List Char)
  | h₁ :: h₂ :: ':' :: m₁ :: m₂ :: ':' :: s₁ :: s₂ :: rest =>
    if isTwoDigits 0 23 h₁ h₂ && isTwoDigits 0 59 m₁ m₂ && isTwoDigits 0 60 s₁ s₂ then
      afterFraction? rest
    else none
  | _ => none

/-- Whether a text is the distance of a time zone, or nothing. -/
def isOffset : List Char → Bool
  | [] => true
  | ['Z'] | ['z'] => true
  | [sign, h₁, h₂, ':', m₁, m₂] =>
    (sign == '+' || sign == '-') && isTwoDigits 0 23 h₁ h₂ && isTwoDigits 0 59 m₁ m₂
  | _ => false

/-- Whether a text is a time with or without the distance of a time zone. -/
def isZonedTime (cs : List Char) : Bool := (afterTime? cs).any isOffset

/-- Whether a word is a date, a time without a zone, or both with a letter between them. -/
def isMoment (cs : List Char) : Bool :=
  match afterDate? cs with
  | some [] => true
  | some ('T' :: time) => isZonedTime time
  | some ('t' :: time) => isZonedTime time
  | some _ => false
  | none => afterTime? cs == some []

/-! ### Words -/

def wordAtom? (word : List Char) : Option Atom :=
  match word with
  | '0' :: 'x' :: digits => basedAtom? 16 digits
  | '0' :: 'o' :: digits => basedAtom? 8 digits
  | '0' :: 'b' :: digits => basedAtom? 2 digits
  | _ =>
    let (negative, number) := dropSign word
    if word == "true".toList then some (.bool true)
    else if word == "false".toList then some (.bool false)
    else if number == "inf".toList then some (.float (.infinity negative))
    else if number == "nan".toList then some (.float .nan)
    else if isMoment word then some (.moment (String.ofList word))
    else unsignedAtom? negative number

/-- Whether a character may stand in a word without quotes. -/
def isWordChar (c : Char) : Bool :=
  c.isAlphanum || c == '_' || c == '-' || c == '+' || c == '.' || c == ':'

def wordOf (cs : List Char) : List Char := cs.takeWhile isWordChar

/-- A value without quotes.  A date and its time may have a blank between them. -/
def readWord (cs : List Char) : Option (Atom × List Char) :=
  let word := wordOf cs
  match afterDate? word, cs.drop word.length with
  | some [], ' ' :: rest =>
    let time := wordOf rest
    if isZonedTime time then
      some (.moment (String.ofList (word ++ ' ' :: time)), rest.drop time.length)
    else some (.moment (String.ofList word), ' ' :: rest)
  | _, rest => (wordAtom? word).map (·, rest)

def readAtom (cs : List Char) : Option (Atom × List Char) :=
  match cs with
  | '"' :: _ => (readText cs).map fun (s, rest) => (.string s, rest)
  | '\x27' :: _ => (readText cs).map fun (s, rest) => (.string s, rest)
  | _ => readWord cs

end GlslEs.Toml
