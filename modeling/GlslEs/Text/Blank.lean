/-!
# Blank characters

The white space of Unicode (property `White_Space`, 25 code points), and the two things a
line of text is asked for: its words and its text without the blanks at both ends.

* `isBlank`: the class itself.
* `words`: the maximal runs of characters that are not blank.
* `trim`: the text without blanks at either end.
-/

namespace GlslEs.Text

/-- The code points with the property `White_Space`. -/
def isBlank (c : Char) : Bool :=
  let n := c.toNat
  (0x09 ≤ n && n ≤ 0x0D) || n == 0x20 || n == 0x85 || n == 0xA0 || n == 0x1680 ||
    (0x2000 ≤ n && n ≤ 0x200A) || n == 0x2028 || n == 0x2029 || n == 0x202F ||
    n == 0x205F || n == 0x3000

/-- Adds a character to the word that is being collected, or closes that word. -/
def wordStep (c : Char) : List Char × List (List Char) → List Char × List (List Char)
  | (word, found) =>
    if isBlank c then ([], if word.isEmpty then found else word :: found)
    else (c :: word, found)

/-- The maximal runs of characters that are not blank, from left to right. -/
def wordChars (cs : List Char) : List (List Char) :=
  let (word, found) := cs.foldr wordStep ([], [])
  if word.isEmpty then found else word :: found

/-- The words of a text, from left to right. -/
def words (cs : List Char) : List String :=
  (wordChars cs).map String.ofList

def trimLeft (cs : List Char) : List Char :=
  cs.dropWhile isBlank

def trim (cs : List Char) : List Char :=
  (trimLeft (trimLeft cs).reverse).reverse

/-- A letter of ASCII or the underscore: what a name may start with. -/
def isLetter (c : Char) : Bool :=
  c.isAlpha || c == '_'

/-- A letter of ASCII, an ASCII digit or the underscore: what a name may go on with. -/
def isNameChar (c : Char) : Bool :=
  isLetter c || c.isDigit

end GlslEs.Text
