import GlslEs.Command.Host
import GlslEs.Text.Path

/-!
# A host in memory

Files are texts under places, and the directories are those that lead to a file.  A place is a
list of names that starts at the working directory; two dots in front lead above it, and a slash
in front leads to the root of all directories.  What is printed is kept.

* `Disk.host`: the host whose state is a disk.
-/

namespace GlslEs

/-- A file without contents of its own: it takes every text and keeps none, or it is one of the
standard streams. -/
inductive Device where
  | null
  | input
  | output
  | errors
deriving DecidableEq, Repr

namespace Device

def ofPlace? : List String → Option Device
  | ["/", "dev", "null"] => some .null
  | ["/", "dev", "stdin"] => some .input
  | ["/", "dev", "stdout"] => some .output
  | ["/", "dev", "stderr"] => some .errors
  | _ => none

end Device

/-- Files, the standard input and what has been printed. -/
structure Disk where
  files : List (List String × String) := []
  input : String := ""
  printed : String := ""
  printedErrors : String := ""
deriving DecidableEq, Repr, Inhabited

namespace Disk

def text? (d : Disk) (place : List String) : Option String :=
  match Device.ofPlace? place with
  | some .input => some d.input
  | some _ => some ""
  | none => (d.files.find? (·.1 == place)).map (·.2)

/-- Whether a place is the working directory or above it. -/
def isAbove (place : List String) : Bool :=
  place.all (· == "..")

/-- Whether a place is a directory; the working directory, those above it and the one of the
devices always are. -/
def isDirectory (d : Disk) (place : List String) : Bool :=
  isAbove place || place == ["/"] || place == ["/", "dev"] ||
    d.files.any fun f => place.isPrefixOf f.1 && f.1 != place

def put (d : Disk) (place : List String) (text : String) : Disk :=
  match Device.ofPlace? place with
  | some .output => { d with printed := d.printed ++ text }
  | some .errors => { d with printedErrors := d.printedErrors ++ text }
  | some _ => d
  | none => { d with files := d.files.filter (·.1 != place) ++ [(place, text)] }

def ofFiles (files : List (String × String)) (input : String) : Disk :=
  files.foldl (fun d (path, text) => d.put (Text.pathNames path) text) { input }

def maxName : Nat := 255

def maxPath : Nat := 4095

/-- One step of a path from a place, which has to be a directory. -/
def step (d : Disk) (place : List String) (name : String) : Except FileError (List String) :=
  if !d.isDirectory place then
    .error (if (d.text? place).isSome then .notADirectory else .notFound)
  else if name == "" || name == "." then .ok place
  else if name == ".." then
    .ok (if isAbove place then place ++ [name]
      else if place == ["/"] then place
      else place.dropLast)
  else if maxName < name.utf8ByteSize then .error .nameTooLong
  else .ok (place ++ [name])

def place (d : Disk) (path : String) : Except FileError (List String) :=
  let steps (cs : List Char) : List String := (Text.pathSteps cs).map String.ofList
  if maxPath < path.utf8ByteSize then .error .nameTooLong
  else
    match path.toList with
    | [] => .error .notFound
    | '/' :: cs => (steps cs).foldlM d.step ["/"]
    | cs => (steps cs).foldlM d.step []

def read (d : Disk) (path : String) : Except FileError String := do
  let place ← d.place path
  match d.text? place with
  | some text => .ok text
  | none => .error (if d.isDirectory place then .isADirectory else .notFound)

/-- The disk after a text has been written to a path.  A path that ends in a slash is no file. -/
def write (d : Disk) (path text : String) : Except FileError Disk := do
  let name := String.ofList (path.toList.reverse.dropWhile (· == '/')).reverse
  let place ← d.place (if name == "" then path else name)
  if name != path || d.isDirectory place then .error .isADirectory
  else if d.isDirectory place.dropLast then .ok (d.put place text)
  else .error .notFound

def kind? (d : Disk) (path : String) : Option FileKind :=
  match d.place path with
  | .error _ => none
  | .ok place =>
    if (d.text? place).isSome then some .file
    else if d.isDirectory place then some .directory
    else none

/-- The files below the directory that a path leads to. -/
def below (d : Disk) (path : String) : Except FileError (List (List String)) := do
  let place ← d.place path
  return d.files.filterMap fun f =>
    if place.isPrefixOf f.1 && f.1 != place then some (f.1.drop place.length) else none

def host : Host (StateM Disk) where
  readFile path := do return (← get).read path
  readInput := do return .ok (← get).input
  writeFile path text := do
    match (← get).write path text with
    | .ok d => set d; return .ok ()
    | .error e => return .error e
  kind? path := do return (← get).kind? path
  filesBelow path := do return (← get).below path
  print text := modify fun d => { d with printed := d.printed ++ text }
  printError text := modify fun d => { d with printedErrors := d.printedErrors ++ text }

end Disk

end GlslEs
