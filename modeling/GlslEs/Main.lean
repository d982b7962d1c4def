import GlslEs.Command.Run

/-!
# The program

The host of the operating system, and the program that runs its words on it.
-/

namespace GlslEs

/-- Whether an error has a number, which some accesses give with the other sign. -/
def FileError.hasNumber (code number : UInt32) : Bool :=
  code == number || code == -number

def FileError.ofSystem : IO.Error → FileError
  | .noFileOrDirectory .. => .notFound
  | .permissionDenied .. => .denied
  | .inappropriateType _ code _ => if hasNumber code 21 then .isADirectory else .notADirectory
  | e@(.invalidArgument _ code _) => if hasNumber code 36 then .nameTooLong else .other (toString e)
  | e => .other (toString e)

namespace Host

def guarded {α : Type} (x : IO α) : IO (Except FileError α) := do
  try
    return .ok (← x)
  catch e => return .error (.ofSystem e)

def asText (bytes : Except FileError ByteArray) : Except FileError String := do
  match String.fromUTF8? (← bytes) with
  | some text => .ok text
  | none => .error .notText

def isDirectory (path : String) : IO Bool := do
  (← IO.FS.realPath path).isDir

/-- The files in a directory and below it, each as the names that lead to it. -/
partial def walk (directory : String) (names : List String) : IO (List (List String)) := do
  let mut found := []
  for entry in ← (← IO.FS.realPath directory).readDir do
    let path := joinPath directory entry.fileName
    let place := names ++ [entry.fileName]
    if ← isDirectory path then
      found := found ++ (← walk path place)
    else
      found := found ++ [place]
  return found

def system : Host IO where
  readFile path := do return asText (← guarded (IO.FS.readBinFile path))
  readInput := do return asText (← guarded (do (← IO.getStdin).readBinToEnd))
  writeFile path text := guarded (IO.FS.writeFile path text)
  kind? path := do
    match ← guarded (isDirectory path) with
    | .ok true => return some .directory
    | .ok false => return some .file
    | .error _ => return none
  filesBelow path := guarded (walk path [])
  print text := IO.print text
  printError text := IO.eprint text

end Host

end GlslEs

/-- Runs the command that the words after the name of the program ask for. -/
def main (words : List String) : IO UInt32 := do
  let outcome ← GlslEs.Host.system.run words
  return UInt32.ofNat outcome.code
