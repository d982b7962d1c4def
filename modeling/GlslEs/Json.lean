import GlslEs.Number.Double

/-!
# JSON values

A value keeps apart what was written as an integer and what was written with a point or an
exponent.  The members of an object stand in the order in which they are given.

* `Json.compact`: the text without blanks.
* `Json.pretty`: the text with one member or element a line, two blanks a level.
-/

namespace GlslEs

/-- A JSON value. -/
inductive Json where
  | null
  | bool (value : Bool)
  | int (value : Int)
  | float (value : Double)
  | string (value : String)
  | array (elements : List Json)
  | object (members : List (String × Json))
deriving Repr, Inhabited

namespace Json

/-! ### Texts of leaves -/

def hexDigit (n : Nat) : Char :=
  if n < 10 then Char.ofNat ('0'.toNat + n) else Char.ofNat ('a'.toNat + n - 10)

def escapeChar (c : Char) : List Char :=
  if c == '"' then ['\\', '"']
  else if c == '\\' then ['\\', '\\']
  else if c == '\n' then ['\\', 'n']
  else if c == '\r' then ['\\', 'r']
  else if c == '\t' then ['\\', 't']
  else if c.toNat == 8 then ['\\', 'b']
  else if c.toNat == 12 then ['\\', 'f']
  else if c.toNat < 32 then ['\\', 'u', '0', '0', hexDigit (c.toNat / 16), hexDigit (c.toNat % 16)]
  else [c]

def quote (s : String) : String :=
  "\"" ++ String.ofList (s.toList.flatMap escapeChar) ++ "\""

/-- A finite number with the fewest digits that read back: positional from `10 ^ (-5)` up to
`10 ^ 16` and then always with a fraction, else with a power of ten. -/
def floatText (x : Double) : String :=
  match x.digits? with
  | none => "null"
  | some (negative, d) =>
    let text :=
      if d.significand = 0 then "0.0"
      else if -5 < d.point && d.point ≤ 16 then
        if 0 ≤ d.exponent then d.positional ++ ".0" else d.positional
      else d.scientific
    if negative then "-" ++ text else text

/-! ### Layouts -/

mutual

def compact : Json → String
  | .null => "null"
  | .bool value => if value then "true" else "false"
  | .int value => toString value
  | .float value => floatText value
  | .string value => quote value
  | .array elements => "[" ++ ",".intercalate (compactElements elements) ++ "]"
  | .object members => "\x7b" ++ ",".intercalate (compactMembers members) ++ "\x7d"

def compactElements : List Json → List String
  | [] => []
  | e :: es => compact e :: compactElements es

def compactMembers : List (String × Json) → List String
  | [] => []
  | (key, value) :: rest => (quote key ++ ":" ++ compact value) :: compactMembers rest

end

/-- Items on lines of their own between two brackets. -/
def bracketed (opening closing : String) (level : Nat) (items : List String) : String :=
  if items.isEmpty then opening ++ closing
  else
    let margin := "".pushn ' ' (2 * (level + 1))
    opening ++ "\n" ++ ",\n".intercalate (items.map (margin ++ ·)) ++ "\n" ++
      "".pushn ' ' (2 * level) ++ closing

mutual

/-- The text of a value at a level of nesting, one item a line. -/
def prettyAt (level : Nat) : Json → String
  | .null => "null"
  | .bool value => if value then "true" else "false"
  | .int value => toString value
  | .float value => floatText value
  | .string value => quote value
  | .array elements => bracketed "[" "]" level (prettyElements (level + 1) elements)
  | .object members => bracketed "\x7b" "\x7d" level (prettyMembers (level + 1) members)

def prettyElements (level : Nat) : List Json → List String
  | [] => []
  | e :: es => prettyAt level e :: prettyElements level es

def prettyMembers (level : Nat) : List (String × Json) → List String
  | [] => []
  | (key, value) :: rest =>
    (quote key ++ ": " ++ prettyAt level value) :: prettyMembers level rest

end

/-- The text of a value, one item a line. -/
def pretty (value : Json) : String :=
  prettyAt 0 value

/-! ### Looking inside -/

/-- The member of an object with a key; of equal keys the last one counts. -/
def member? (key : String) : Json → Option Json
  | .object members => (members.reverse.find? (·.1 == key)).map (·.2)
  | _ => none

end Json

end GlslEs
