/-!
# Pieces of written text

Text is written piece by piece, in one of two styles.  The compact style has no blanks except
where two pieces would be read as one; the beautified style has lines, indentation and blanks
around operators.

`Piece.render` gives the text of pieces in a style.
-/

namespace GlslEs

/-- How text is laid out. -/
inductive Style where
  | compact
  | beautified
deriving DecidableEq, Repr, Inhabited

/-- A piece of text: a word is kept apart from what stands in front of it where the two would be
read as one, a tight piece never is, and the others only show in the beautified style. -/
inductive Piece where
  | word (text : String)
  | tight (text : String)
  | operator (text : String)
  | space
  | line
  | indent
  | outdent
deriving DecidableEq, Repr

namespace Piece

def isWordChar (c : Char) : Bool := c.isAlphanum || c == '_'

/-- Whether two characters next to each other would be read as one piece. -/
def glues (last next : Char) : Bool :=
  (isWordChar last && (isWordChar next || next == '.')) ||
    (last == next && ['+', '-', '&', '|', '/', '<', '>', '='].contains last) ||
    (last == '/' && next == '*')

/-- The blank that keeps a word apart from the character in front of it. -/
def separator (last : Option Char) (text : List Char) : List Char :=
  match last, text with
  | some l, c :: _ => if glues l c then [' '] else []
  | _, _ => []

/-- A blank, unless there is one. -/
def gap (last : Option Char) : List Char :=
  if last = some ' ' || last = some '\n' then [] else [' ']

def lineStart (indent : Nat) (last : Option Char) : List Char :=
  (if last = none || last = some '\n' then [] else ['\n']) ++ List.replicate (2 * indent) ' '

/-- The characters of a piece, after the given indentation and the given character. -/
def chars (style : Style) (indent : Nat) (last : Option Char) : Piece → List Char
  | .word text => separator last text.toList ++ text.toList
  | .tight text => text.toList
  | .operator text =>
    match style with
    | .compact => separator last text.toList ++ text.toList
    | .beautified => gap last ++ text.toList ++ [' ']
  | .space => if style = .beautified then gap last else []
  | .line => if style = .beautified then lineStart indent last else []
  | .indent | .outdent => []

def indentAfter (indent : Nat) : Piece → Nat
  | .indent => indent + 1
  | .outdent => indent - 1
  | _ => indent

/-- The characters of pieces, after the given indentation and the given character.  Beautified
text ends with a line. -/
def renderFrom (style : Style) (indent : Nat) (last : Option Char) : List Piece → List Char
  | [] => if style = .beautified && last != none && last != some '\n' then ['\n'] else []
  | p :: ps =>
    let cs := p.chars style indent last
    cs ++ renderFrom style (p.indentAfter indent) (cs.getLast?.or last) ps

def render (style : Style) (ps : List Piece) : String :=
  String.ofList (renderFrom style 0 none ps)

/-! ### Pieces that stand together -/

def comma : List Piece := [.tight ",", .space]

def commaSeparated : List (List Piece) → List Piece
  | [] => []
  | [item] => item
  | item :: items => item ++ comma ++ commaSeparated items

def openBrace : List Piece := [.space, .tight "\x7b", .indent]

def closeBrace : List Piece := [.outdent, .line, .tight "\x7d"]

end Piece

end GlslEs
