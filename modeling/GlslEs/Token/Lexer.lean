import GlslEs.SyntaxError
import GlslEs.Text.Blank

/-!
# Reading tokens

A source text is cut into pieces from the left: blanks, comments, directives and tokens.  The
first characters of the rest decide what piece comes next and how many characters it takes;
places are counted over exactly those characters, so the place of a token is the place
reached by reading everything in front of it.

* `nextPiece`: what the text starts with and its length.
* `tokenize`: the tokens of a whole text, closed by `Token.endOfText`.
-/

namespace GlslEs.Lexer

open Text

/-- A piece of source text. -/
inductive Piece where
  | blank
  | directive (token : Option Token)
  | token (token : Token)
deriving DecidableEq, Repr

/-- The result of reading one thing: what it is and how many characters it takes. -/
abbrev Read (α : Type) := Except SyntaxProblem (α × Nat)

/-! ### Comments -/

/-- The characters up to and including the end of a block comment. -/
def blockCommentLength? : List Char → Option Nat
  | [] => none
  | '*' :: '/' :: _ => some 2
  | _ :: cs => (blockCommentLength? cs).map (· + 1)

def lineLength (cs : List Char) : Nat :=
  (cs.takeWhile (· != '\n')).length

/-! ### Numbers -/

def isHexDigit (c : Char) : Bool :=
  c.isDigit || ('a' ≤ c && c ≤ 'f') || ('A' ≤ c && c ≤ 'F')

/-- An integer literal after its digits: the sign of an unsigned one, and no letter. -/
def integerEnd (value length : Nat) : List Char → Read Token
  | [] => .ok (.int (UInt32.ofNat value), length)
  | c :: _ =>
    if c == 'u' || c == 'U' then .ok (.uint (UInt32.ofNat value), length + 1)
    else if isLetter c then .error .letterAfterInteger
    else .ok (.int (UInt32.ofNat value), length)

/-- A hexadecimal literal, from the characters after `0x`. -/
def readHex (cs : List Char) : Read Token :=
  let digits := cs.takeWhile isHexDigit
  if digits.isEmpty then .error .hexWithoutDigits
  else
    let value := Decimal.ofDigits 16 digits
    if value ≤ 0xFFFFFFFF then integerEnd value (digits.length + 2) (cs.drop digits.length)
    else .error (.integerTooLarge ("0x" ++ String.ofList digits))

/-- An integer literal in base ten, or in base eight after a leading zero. -/
def readInteger (digits rest : List Char) : Read Token :=
  let text := String.ofList digits
  match digits with
  | '0' :: d :: ds =>
    let value := Decimal.ofDigits 8 (d :: ds)
    if (d :: ds).all (fun c => '0' ≤ c && c ≤ '7') && value ≤ 0xFFFFFFFF then
      integerEnd value digits.length rest
    else .error (.malformedOctal text)
  | _ =>
    let value := Decimal.ofDigits 10 digits
    if value ≤ 0xFFFFFFFF then integerEnd value digits.length rest
    else .error (.integerTooLarge text)

/-- The exponent of a floating-point literal: its text, its value and what follows it. -/
structure Exponent where
  text : List Char
  value : Int
  rest : List Char

/-- The exponent that a text starts with, if there is one. -/
def readExponent (cs : List Char) : Except SyntaxProblem (Option Exponent) :=
  match cs with
  | c :: cs =>
    if c == 'e' || c == 'E' then
      let sign := match cs with
        | '+' :: _ => ['+']
        | '-' :: _ => ['-']
        | _ => []
      let cs := cs.drop sign.length
      let digits := cs.takeWhile Char.isDigit
      if digits.isEmpty then .error .exponentWithoutDigits
      else
        let size : Int := Decimal.ofDigits 10 digits
        .ok (some ⟨'e' :: sign ++ digits, if sign == ['-'] then -size else size,
          cs.drop digits.length⟩)
    else .ok none
  | [] => .ok none

/-- A floating-point literal after its digits: no letter may follow. -/
def floatEnd (value : Single) (text rest : List Char) : Read Token :=
  match rest with
  | c :: _ =>
    if isLetter c then .error (.letterAfterFloat (String.ofList text))
    else .ok (.float value, text.length)
  | [] => .ok (.float value, text.length)

/-- The point behind the digits of a number, the digits behind the point, and what follows. -/
def fractionParts : List Char → List Char × List Char × List Char
  | '.' :: rest =>
    let fraction := rest.takeWhile Char.isDigit
    (['.'], fraction, rest.drop fraction.length)
  | rest => ([], [], rest)

/-- A literal in base ten: an integer, or a floating-point value with a point or exponent. -/
def readDecimal (cs : List Char) : Read Token :=
  let whole := cs.takeWhile Char.isDigit
  let (point, fraction, rest) := fractionParts (cs.drop whole.length)
  match readExponent rest with
  | .error problem => .error problem
  | .ok (some e) =>
    floatEnd (.ofDecimal (.ofParts whole fraction e.value)) (whole ++ point ++ fraction ++ e.text)
      e.rest
  | .ok none =>
    if point.isEmpty then readInteger whole rest
    else floatEnd (.ofDecimal (.ofParts whole fraction 0)) (whole ++ point ++ fraction) rest

def readNumber : List Char → Read Token
  | '0' :: 'x' :: cs => readHex cs
  | '0' :: 'X' :: cs => readHex cs
  | cs => readDecimal cs

/-! ### Words and signs -/

def hasDoubleUnderscore : List Char → Bool
  | '_' :: '_' :: _ => true
  | _ :: cs => hasDoubleUnderscore cs
  | [] => false

/-- A word: a keyword, a type or a name. -/
def readWord (cs : List Char) : Read Token :=
  let chars := cs.takeWhile isNameChar
  let word := String.ofList chars
  if Token.isReservedWord word then .error (.reservedWord word)
  else if hasDoubleUnderscore chars then .error (.doubleUnderscore word)
  else .ok (Token.ofWord word, chars.length)

def punct? (cs : List Char) : Option Punct :=
  Punct.longestFirst.find? fun p => p.text.toList.isPrefixOf cs

/-! ### Directives -/

def beforeLineComment : List Char → List Char
  | '/' :: '/' :: _ => []
  | c :: cs => c :: beforeLineComment cs
  | [] => []

/-- A word of decimal digits, with an optional plus sign, that fits 32 bits. -/
def readWord32? (word : String) : Option Nat :=
  let digits := match word.toList with
    | '+' :: cs => cs
    | cs => cs
  let value := Decimal.ofDigits 10 digits
  if !digits.isEmpty && digits.all Char.isDigit && value ≤ 0xFFFFFFFF then some value else none

/-- The version directive, from the words after its name. -/
def readVersion (words : List String) : Except SyntaxProblem Token :=
  match words with
  | [] => .error .versionWithoutNumber
  | number :: rest =>
    match readWord32? number with
    | none => .error .versionWithoutNumber
    | some n =>
      match rest with
      | [] => .ok (.version n none)
      | [profile] => .ok (.version n (some profile))
      | _ => .error .versionWithTail

/-- The extension directive, from the words after its name. -/
def readExtension (words : List String) : Except SyntaxProblem Token :=
  let text := (" ".intercalate words).toList
  let name := text.takeWhile (· != ':')
  match text.drop name.length with
  | [] => .error .malformedExtension
  | _ :: behavior =>
    let name := trim name
    let behavior := trim behavior
    if name.isEmpty || behavior.isEmpty then .error .malformedExtension
    else .ok (.extension (String.ofList name) (String.ofList behavior))

/-- A directive, from the text of its line after the hash sign.  Pragmas and empty directives
mean nothing. -/
def readDirective (line : List Char) : Except SyntaxProblem (Option Token) :=
  match words (beforeLineComment line) with
  | [] => .ok none
  | "pragma" :: _ => .ok none
  | "version" :: rest => (readVersion rest).map some
  | "extension" :: rest => (readExtension rest).map some
  | other :: _ => .error (.unknownDirective other)

/-! ### Pieces -/

/-- A token, from a text that starts with neither a blank nor a comment. -/
def readToken (c : Char) (cs : List Char) : Read Token :=
  if isLetter c then readWord (c :: cs)
  else if c.isDigit || (c == '.' && (cs.head?.map Char.isDigit).getD false) then readNumber (c :: cs)
  else
    match punct? (c :: cs) with
    | some p => .ok (.punct p, p.text.length)
    | none => .error (.unknownCharacter c)

/-- What a text starts with and how many characters that takes.  `fresh` says that no token
stands in front of it on its line. -/
def nextPiece (fresh : Bool) (c : Char) (cs : List Char) : Read Piece :=
  if isBlank c then .ok (.blank, 1)
  else
    match c, cs with
    | '/', '/' :: rest => .ok (.blank, lineLength rest + 2)
    | '/', '*' :: rest =>
      match blockCommentLength? rest with
      | some n => .ok (.blank, n + 2)
      | none => .error .unclosedComment
    | '#', _ =>
      let line := cs.takeWhile (· != '\n')
      if fresh then (readDirective line).map fun token => (.directive token, line.length + 1)
      else .error .hashInsideLine
    | _, _ => (readToken c cs).map fun (token, length) => (.token token, length)

/-- Whether the next piece is the first on its line, after a piece with the given text. -/
def freshAfter (fresh : Bool) (piece : Piece) (text : List Char) : Bool :=
  match piece with
  | .token _ => false
  | .blank | .directive _ => fresh || text.any (· == '\n')

def Piece.lexemes (loc : Location) : Piece → List Lexeme
  | .token t => [⟨t, loc⟩]
  | .directive (some t) => [⟨t, loc⟩]
  | _ => []

/-- The lexemes of a text that starts at a place.  Every piece takes at least one character,
so the length of the text is enough fuel. -/
def lexemes : Nat → Location → Bool → List Char → Except SyntaxError (List Lexeme)
  | _, loc, _, [] => .ok [⟨.endOfText, loc⟩]
  | 0, loc, _, _ => .ok [⟨.endOfText, loc⟩]
  | fuel + 1, loc, fresh, c :: cs =>
    match nextPiece fresh c cs with
    | .error problem => .error ⟨problem, loc⟩
    | .ok (piece, length) =>
      let text := (c :: cs).take length
      (lexemes fuel (loc.advance text) (freshAfter fresh piece text) ((c :: cs).drop length)).map
        (piece.lexemes loc ++ ·)

def tokenize (source : String) : Except SyntaxError (List Lexeme) :=
  lexemes source.toList.length Location.start true source.toList

end GlslEs.Lexer
