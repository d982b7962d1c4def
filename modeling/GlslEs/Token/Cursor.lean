import GlslEs.SyntaxError

/-!
# Walking through tokens

A `Cursor` stands in front of the tokens that are still to be read.  It never passes the
closing token, it remembers where the last token it passed stands, and it knows the names of
the structures defined so far, because those names start declarations and constructor calls.

`Parse α` reads an `α`; it fails with the first error.
-/

namespace GlslEs

/-- A place in a list of tokens. -/
structure Cursor where
  passed : Location
  rest : List Lexeme
  structs : List String
deriving Repr

/-- Reading from a cursor. -/
abbrev Parse (α : Type) := StateT Cursor (Except SyntaxError) α

namespace Cursor

def ofLexemes (lexemes : List Lexeme) : Cursor where
  passed := (lexemes.head?.map (·.loc)).getD Location.none
  rest := lexemes
  structs := []

def peek (c : Cursor) : Lexeme :=
  c.rest.head?.getD ⟨.endOfText, c.passed⟩

def ahead? (c : Cursor) (n : Nat) : Option Token :=
  c.rest[n]?.map (·.token)

/-- The cursor behind the next token; the closing token is never passed. -/
def next (c : Cursor) : Cursor :=
  match c.rest with
  | [] => c
  | ⟨.endOfText, _⟩ :: _ => c
  | l :: rest => { c with passed := l.loc, rest }

end Cursor

namespace Parse

def peek : Parse Lexeme := do
  return (← get).peek

def here : Parse Location := do
  return (← peek).loc

def token : Parse Token := do
  return (← peek).token

def advance : Parse Lexeme := fun c => .ok (c.peek, c.next)

def fail {α : Type} (problem : SyntaxProblem) : Parse α := fun c => .error ⟨problem, c.peek.loc⟩

def failPassed {α : Type} (problem : SyntaxProblem) : Parse α := fun c => .error ⟨problem, c.passed⟩

def check (sign : Punct) : Parse Bool := do
  return (← token) == .punct sign

def checkWord (word : Keyword) : Parse Bool := do
  return (← token) == .keyword word

def acceptToken (t : Token) : Parse Bool := fun c =>
  if c.peek.token == t then .ok (true, c.next) else .ok (false, c)

def accept (sign : Punct) : Parse Bool := acceptToken (.punct sign)

def acceptWord (word : Keyword) : Parse Bool := acceptToken (.keyword word)

def expectToken (t : Token) (what : Expected) : Parse Location := fun c =>
  if c.peek.token == t then .ok (c.peek.loc, c.next)
  else .error ⟨.missing what c.peek.token, c.peek.loc⟩

def expect (sign : Punct) (what : Expected) : Parse Location := expectToken (.punct sign) what

def expectWord (word : Keyword) (what : Expected) : Parse Location :=
  expectToken (.keyword word) what

def name (what : Expected) : Parse String := fun c =>
  match c.peek.token with
  | .identifier name => .ok (name, c.next)
  | other => .error ⟨.missing what other, c.peek.loc⟩

def precision? : Parse (Option Precision) := fun c =>
  match c.peek.token with
  | .precision p => .ok (some p, c.next)
  | _ => .ok (none, c)

/-- Whether a structure with the name has been defined. -/
def isStruct (name : String) : Parse Bool := do
  return (← get).structs.contains name

/-- Whether the next two tokens are the word `void` and a closing parenthesis. -/
def atVoidList : Parse Bool := do
  let c ← get
  match c.peek.token with
  | .typeName ty => return ty.isVoid && c.ahead? 1 == some (.punct .rightParen)
  | _ => return false

/-- Items divided by commas, at least one.  An item takes a token, so the number of tokens is
enough fuel. -/
def commaSeparated {α : Type} (item : Parse α) : Nat → Parse (List α)
  | 0 => fail .tooDeep
  | fuel + 1 => do
    let first ← item
    if ← accept .comma then
      return first :: (← commaSeparated item fuel)
    else
      return [first]

end Parse

end GlslEs
