/-!
# File names

A path is a list of names divided by slashes.  Empty names and single dots mean nothing; the
last name is that of the file, and what follows its last dot is its extension.
-/

namespace GlslEs.Text

def pathSteps (path : List Char) : List (List Char) :=
  path.foldr (fun c steps =>
    match c, steps with
    | '/', _ => [] :: steps
    | _, step :: rest => (c :: step) :: rest
    | _, [] => [[c]]) [[]]

def pathNames (path : String) : List String :=
  ((pathSteps path.toList).map String.ofList).filter fun name => name != "" && name != "."

def fileName? (path : String) : Option String :=
  (pathNames path).getLast?.filter (· != "..")

/-- The extension of a file name: what follows its last dot, if something stands before the
dot. -/
def nameExtension? (name : String) : Option String :=
  let reversed := name.toList.reverse
  let extension := reversed.takeWhile (· != '.')
  match reversed.drop extension.length with
  | _ :: _ :: _ => some (String.ofList extension.reverse)
  | _ => none

def extension? (path : String) : Option String :=
  (fileName? path).bind nameExtension?

end GlslEs.Text
