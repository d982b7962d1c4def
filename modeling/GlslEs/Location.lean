/-!
# Places in a source text

A `Location` is a line and a column, both counted from one, and an offset in bytes, counted
from zero.  Reading a character moves a location on; a newline starts the next line.
-/

namespace GlslEs

/-- A place in a source text: columns count characters, offsets count bytes of UTF-8. -/
structure Location where
  line : Nat
  column : Nat
  offset : Nat
deriving DecidableEq, Repr, Inhabited

namespace Location

def none : Location := ⟨0, 0, 0⟩

def start : Location := ⟨1, 1, 0⟩

def next (loc : Location) (c : Char) : Location :=
  if c = '\n' then ⟨loc.line + 1, 1, loc.offset + c.utf8Size⟩
  else ⟨loc.line, loc.column + 1, loc.offset + c.utf8Size⟩

def advance (loc : Location) (cs : List Char) : Location :=
  cs.foldl next loc

/-- Places are ordered by offset, then by line and column. -/
def le (a b : Location) : Bool :=
  a.offset < b.offset ||
    (a.offset == b.offset && (a.line < b.line || (a.line == b.line && a.column ≤ b.column)))

def toText (loc : Location) : String :=
  toString loc.line ++ ":" ++ toString loc.column

@[simp] theorem advance_nil (loc : Location) : loc.advance [] = loc := rfl

@[simp] theorem advance_cons (loc : Location) (c : Char) (cs : List Char) :
    loc.advance (c :: cs) = (loc.next c).advance cs := rfl

theorem advance_append (loc : Location) (as bs : List Char) :
    loc.advance (as ++ bs) = (loc.advance as).advance bs :=
  List.foldl_append

end Location

end GlslEs
