import GlslEs.Json

/-!
# TOML documents

A document is a table: members with a name each.  What stands under a name is a single value,
an array or another table.  A document is written piece by piece, and how a table came to be
says what may still be added to it: a table between braces is complete, one that has had a
header takes no second one, and only tables that came from keys with dots take more such keys.

* `Toml.Table.assign`: a table after a key and its value.
* `Toml.Table.openTable`, `Toml.Table.openElement`: a document after a header.
* `Toml.Value.record?`, `Toml.Value.word?`: a value as named parts, or as one of several words.
* `Toml.tableText`: the text of a table.
-/

namespace GlslEs.Toml

/-- A single value; a date or a time is kept as it was written. -/
inductive Atom where
  | bool (value : Bool)
  | int (value : Int)
  | float (value : Double)
  | string (value : String)
  | moment (text : String)
deriving DecidableEq, Repr

/-- How a table or an array came to be. -/
inductive Form where
  /-- named on the way to the header of another table -/
  | implied
  /-- by a header of its own -/
  | header
  /-- named by a key with dots -/
  | dotted
  /-- between brackets or braces, complete -/
  | inline
deriving DecidableEq, Repr

/-- What stands under a name. -/
inductive Value where
  | atom (a : Atom)
  | array (form : Form) (items : List Value)
  | table (form : Form) (members : List (String × Value))
deriving Repr

/-- A table on its own. -/
structure Table where
  form : Form
  members : List (String × Value) := []
deriving Repr

/-- Keys that lead from a table to something below it. -/
abbrev Path := List String

/-! ### Tables -/

/-- Where a path stands: in a header, or in front of a value. -/
inductive Route where
  | header
  | dots
deriving DecidableEq, Repr

namespace Route

def form : Route → Form
  | .header => .implied
  | .dots => .dotted

def passes (r : Route) : Form → Bool
  | .implied | .dotted => true
  | .header => r = .header
  | .inline => false

end Route

namespace Table

def toValue (t : Table) : Value := .table t.form t.members

def find? (t : Table) (key : String) : Option Value := t.members.lookup key

def add (t : Table) (key : String) (v : Value) : Table :=
  { t with members := t.members ++ [(key, v)] }

def replace (t : Table) (key : String) (v : Value) : Table :=
  { t with members := t.members.map fun m => if m.1 == key then (key, v) else m }

/-- The table after a step in the table that a path leads to.  Tables that are missing on the
path are made, and a path goes on in the last element of an array of tables. -/
def within (r : Route) (step : Table → Option Table) : Path → Table → Option Table
  | [], t => step t
  | key :: path, t =>
    match t.find? key with
    | none => (within r step path ⟨r.form, []⟩).map fun inner => t.add key inner.toValue
    | some (.table form members) =>
      if r.passes form then
        (within r step path ⟨form, members⟩).map fun inner => t.replace key inner.toValue
      else none
    | some (.array .header items) =>
      match items.getLast? with
      | some (.table form members) =>
        (within r step path ⟨form, members⟩).map fun inner =>
          t.replace key (.array .header (items.dropLast ++ [inner.toValue]))
      | _ => none
    | some _ => none

/-- The table with a new member under a name that is free. -/
def insert (t : Table) (key : String) (v : Value) : Option Table :=
  match t.find? key with
  | none => some (t.add key v)
  | some _ => none

/-- The table after a key, which may have dots, and its value.  The table that takes the value
is this one or one that came from dots. -/
def assign (t : Table) (key : Path) (v : Value) : Option Table :=
  match key.getLast? with
  | none => none
  | some name =>
    t.within .dots
      (fun inner => if key.length = 1 || inner.form = .dotted then inner.insert name v else none)
      key.dropLast

/-- The table with a table under a name that has had no header yet. -/
def openMember (t : Table) (name : String) : Option Table :=
  match t.find? name with
  | none => some (t.add name (.table .header []))
  | some (.table .implied members) => some (t.replace name (.table .header members))
  | some _ => none

/-- The table with one more table in the array under a name. -/
def openItem (t : Table) (name : String) : Option Table :=
  match t.find? name with
  | none => some (t.add name (.array .header [.table .header []]))
  | some (.array .header items) =>
    some (t.replace name (.array .header (items ++ [.table .header []])))
  | some _ => none

def openTable (t : Table) (path : Path) : Option Table :=
  path.getLast?.bind fun name => t.within .header (·.openMember name) path.dropLast

/-- A document after the header of an element of an array of tables. -/
def openElement (t : Table) (path : Path) : Option Table :=
  path.getLast?.bind fun name => t.within .header (·.openItem name) path.dropLast

end Table

/-! ### Values by shape -/

namespace Value

/-- Whether a value is an array or a table with nothing in it. -/
def isEmpty : Value → Bool
  | .atom _ => false
  | .array _ items => items.isEmpty
  | .table _ members => members.isEmpty

/-- The parts of a value by name: a table has no other names than the given ones, and an array
gives the parts in the order of the names, as many as it has. -/
def record? (names : List String) : Value → Option (List (String × Value))
  | .table _ members => if members.all fun m => names.contains m.1 then some members else none
  | .array _ items => some (names.zip items)
  | .atom _ => none

/-- The word that a value stands for: a text, or the only name in a table if nothing stands
below it. -/
def word? : Value → Option String
  | .atom (.string word) => some word
  | .table _ [(word, below)] => if below.isEmpty then some word else none
  | _ => none

def bool? : Value → Option Bool
  | .atom (.bool b) => some b
  | _ => none

def nat? : Value → Option Nat
  | .atom (.int n) => if 0 ≤ n then some n.toNat else none
  | _ => none

end Value

/-- A part by name as it is read, or what holds if it is missing. -/
def part {α : Type} (parts : List (String × Value)) (name : String) (read : Value → Option α)
    (missing : α) : Option α :=
  match parts.lookup name with
  | some v => read v
  | none => some missing

/-! ### Texts -/

/-- A number with the fewest digits that read back, without exponent and always with a
fraction. -/
def floatText (x : Double) : String :=
  if x.isNan then "nan"
  else
    match x.digits? with
    | some (_, d) => if 0 ≤ d.exponent then x.toText ++ ".0" else x.toText
    | none => x.toText

namespace Atom

def text : Atom → String
  | .bool value => if value then "true" else "false"
  | .int value => toString value
  | .float value => floatText value
  | .string value => Json.quote value
  | .moment text => text

end Atom

/-- The text of a table of single values: a key and its value a line. -/
def tableText (members : List (String × Atom)) : String :=
  String.join (members.map fun (key, value) => key ++ " = " ++ value.text ++ "\n")

def headedText (name : String) (members : List (String × Atom)) : String :=
  "[" ++ name ++ "]\n" ++ tableText members

end GlslEs.Toml
