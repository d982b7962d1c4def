/-!
# Hosts

What a command needs from the place where it runs: files, the standard input and the two
standard outputs.  Commands are written for any host; one in memory shows what they do, and one
of the operating system does it.
-/

namespace GlslEs

/-- Why a file cannot be read or written. -/
inductive FileError where
  | notFound
  | notADirectory
  | isADirectory
  | nameTooLong
  | denied
  | notText
  | other (message : String)
deriving DecidableEq, Repr

namespace FileError

def message : FileError → String
  | .notFound => "No such file or directory (os error 2)"
  | .denied => "Permission denied (os error 13)"
  | .notADirectory => "Not a directory (os error 20)"
  | .isADirectory => "Is a directory (os error 21)"
  | .nameTooLong => "File name too long (os error 36)"
  | .notText => "stream did not contain valid UTF-8"
  | .other message => message

end FileError

/-- What a path leads to. -/
inductive FileKind where
  | file
  | directory
deriving DecidableEq, Repr

/-- The place where a command runs. -/
structure Host (m : Type → Type) where
  /-- The text of a file. -/
  readFile : String → m (Except FileError String)
  /-- The text on the standard input. -/
  readInput : m (Except FileError String)
  /-- Makes a text the contents of a file. -/
  writeFile : String → String → m (Except FileError Unit)
  /-- What a path leads to. -/
  kind? : String → m (Option FileKind)
  /-- The files in a directory and in the directories below it, each as the names that lead to
  it, in any order. -/
  filesBelow : String → m (Except FileError (List (List String)))
  /-- Writes to the standard output. -/
  print : String → m Unit
  /-- Writes to the standard output for errors. -/
  printError : String → m Unit

end GlslEs
