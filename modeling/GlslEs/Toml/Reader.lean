import GlslEs.Toml.Atom

/-!
# Reading TOML

Headers of tables, keys with values, comments and empty lines, each starting on a line of its
own.  Arrays go over line ends, tables between braces do not.  Arrays and tables between
brackets and braces are nested to a fixed depth, and a key has no more parts than that.

* `Toml.parse?`: the document that a text spells, if it spells one.
-/

namespace GlslEs.Toml

/-- How deep arrays and tables are nested, and how many parts a key has. -/
def maxDepth : Nat := 79

/-! ### Keys -/

/-- Whether a character may stand in a key without quotes. -/
def isKeyChar (c : Char) : Bool :=
  c.isAlphanum || c == '_' || c == '-'

def readSimpleKey (cs : List Char) : Option (String × List Char) :=
  match cs with
  | '"' :: rest => (readQuoted rest).map fun (key, rest) => (String.ofList key, rest)
  | '\x27' :: rest => (readLiteral rest).map fun (key, rest) => (String.ofList key, rest)
  | _ =>
    let key := cs.takeWhile isKeyChar
    if key.isEmpty then none else some (String.ofList key, cs.drop key.length)

/-- The parts of a key divided by dots, at most so many, and the rest without blanks in front
of it. -/
def readPath : Nat → List Char → Option (Path × List Char)
  | 0, _ => none
  | room + 1, cs =>
    match readSimpleKey (skipBlanks cs) with
    | none => none
    | some (key, rest) =>
      match skipBlanks rest with
      | '.' :: rest => (readPath room rest).map fun (keys, rest) => (key :: keys, rest)
      | rest => some ([key], rest)

def readKey (cs : List Char) : Option (Path × List Char) := readPath maxDepth cs

/-! ### Values -/

mutual

/-- The text without the blanks, line ends and comments in front of it. -/
def skipSpace : List Char → List Char
  | ' ' :: cs => skipSpace cs
  | '\t' :: cs => skipSpace cs
  | '\n' :: cs => skipSpace cs
  | '\r' :: '\n' :: cs => skipSpace cs
  | '#' :: cs => skipComment cs
  | cs => cs

/-- The same inside a comment, which goes to the end of its line. -/
def skipComment : List Char → List Char
  | '\n' :: cs => skipSpace cs
  | '\r' :: '\n' :: cs => skipSpace cs
  | c :: cs => if isPrintable c then skipComment cs else c :: cs
  | [] => []

end

/-- The items of an array up to its closing bracket; the last one may have a comma after it.
The length of the text is enough fuel. -/
def readItems (value : List Char → Option (Value × List Char)) :
    Nat → List Char → Option (List Value × List Char)
  | 0, _ => none
  | fuel + 1, cs =>
    match skipSpace cs with
    | ']' :: rest => some ([], rest)
    | cs =>
      match value cs with
      | none => none
      | some (v, rest) =>
        match skipSpace rest with
        | ',' :: rest => (readItems value fuel rest).map fun (vs, rest) => (v :: vs, rest)
        | ']' :: rest => some ([v], rest)
        | _ => none

/-- A key, its value and the rest. -/
def readMember (value : List Char → Option (Value × List Char)) (cs : List Char) :
    Option (Path × Value × List Char) :=
  match readKey cs with
  | some (key, '=' :: rest) => (value (skipBlanks rest)).map fun (v, rest) => (key, v, rest)
  | _ => none

/-- The members of a table between braces up to the closing brace.  The length of the text is
enough fuel. -/
def readMembers (value : List Char → Option (Value × List Char)) :
    Nat → Table → List Char → Option (Table × List Char)
  | 0, _, _ => none
  | fuel + 1, t, cs =>
    match readMember value cs with
    | none => none
    | some (key, v, rest) =>
      match t.assign key v with
      | none => none
      | some t =>
        match skipBlanks rest with
        | ',' :: rest => readMembers value fuel t rest
        | '\x7d' :: rest => some (t, rest)
        | _ => none

/-- A value in which arrays and tables are nested no deeper than the first number says. -/
def readNested : Nat → List Char → Option (Value × List Char)
  | 0, cs => (readAtom cs).map fun (a, rest) => (.atom a, rest)
  | depth + 1, cs =>
    match cs with
    | '[' :: rest =>
      (readItems (readNested depth) (rest.length + 1) rest).map fun (vs, rest) =>
        (.array .inline vs, rest)
    | '\x7b' :: rest =>
      match skipBlanks rest with
      | '\x7d' :: rest => some (.table .inline [], rest)
      | rest =>
        (readMembers (readNested depth) (rest.length + 1) ⟨.inline, []⟩ rest).map fun (t, rest) =>
          (t.toValue, rest)
    | _ => (readAtom cs).map fun (a, rest) => (.atom a, rest)

def readValue (cs : List Char) : Option (Value × List Char) := readNested maxDepth cs

/-! ### Lines -/

/-- A document being read and the table that keys belong to. -/
structure Reading where
  document : Table := ⟨.header, []⟩
  table : Path := []
deriving Repr

/-- The text after the end of a line on which nothing but blanks and a comment is left. -/
def afterLine? (cs : List Char) : Option (List Char) :=
  let rest := match skipBlanks cs with
    | '#' :: comment => comment.dropWhile isPrintable
    | rest => rest
  if rest.isEmpty then some [] else afterLineEnd? rest

/-- A document after a header, with the table that it opens. -/
def Reading.head (r : Reading) (step : Table → Path → Option Table) (path : Path) :
    Option Reading :=
  (step r.document path).map fun d => ⟨d, path⟩

def Reading.assign (r : Reading) (key : Path) (v : Value) : Option Reading :=
  (r.document.within .header (·.assign key v) r.table).map fun d => { r with document := d }

/-- A document after a header or a key with its value, and what follows on the line. -/
def readEntry (r : Reading) (cs : List Char) : Option (Reading × List Char) :=
  match cs with
  | '[' :: '[' :: rest =>
    match readKey rest with
    | some (path, ']' :: ']' :: rest) => (r.head Table.openElement path).map (·, rest)
    | _ => none
  | '[' :: rest =>
    match readKey rest with
    | some (path, ']' :: rest) => (r.head Table.openTable path).map (·, rest)
    | _ => none
  | _ =>
    match readMember readValue cs with
    | some (key, v, rest) => (r.assign key v).map (·, rest)
    | none => none

/-- A document after the lines of a text.  The length of the text is enough fuel. -/
def readLines : Nat → Reading → List Char → Option Reading
  | 0, _, _ => none
  | fuel + 1, r, cs =>
    match afterLine? cs with
    | some [] => some r
    | some rest => readLines fuel r rest
    | none =>
      match readEntry r (skipBlanks cs) with
      | none => none
      | some (r, rest) =>
        match afterLine? rest with
        | none => none
        | some rest => readLines fuel r rest

def dropByteOrderMark : List Char → List Char
  | c :: cs => if c.toNat == 0xFEFF then cs else c :: cs
  | [] => []

def parse? (text : String) : Option Table :=
  let cs := dropByteOrderMark text.toList
  (readLines (cs.length + 1) {} cs).map (·.document)

end GlslEs.Toml
