import GlslEs.Mangle.Name
import GlslEs.Mangle.Walk

/-!
# Shortening names

Parameters, local variables and all functions but `main` get short names.  A first walk finds
which names occur and how often, then names are assigned, and a second walk in the same order
puts them in.  The symbols of different functions may get the same names; no new name is one that
stays, and no local symbol gets the name of a function.

`Shader.mangle` is the shader with short names and the number of symbols that got one.
-/

namespace GlslEs

namespace Mangle

/-- The names that a declaration at the top of a shader keeps. -/
def globalNames : TopLevel → List String
  | .globals d => (d.struct.map (·.name)).toList ++ d.declarators.map (·.name)
  | .struct d => [d.name]
  | .block b => b.name :: b.instanceName.toList ++ b.members.map (·.name)
  | _ => []

/-- The functions that get new names, in the order of their first declarations. -/
def functionNames (s : Shader) : List String :=
  ((s.declarations.filterMap fun
    | .prototype p => some p.name
    | .function f => some f.prototype.name
    | _ => none).filter (· != "main")).eraseDups

/-- The walk over a declaration at the top of a shader. -/
def walk (plan : WalkPlan) : TopLevel → Walk
  | .function f => (Walking.run (Walking.function f) plan).2
  | .globals d => (Walking.run (Walking.globalDeclaration d) plan).2
  | _ => {}

def symbolUses (w : Walk) : List Nat :=
  (List.range w.next).map fun id => w.seen.count (.symbol id)

def otherNames (w : Walk) : List String :=
  w.seen.filterMap fun
    | .other name => some name
    | _ => none

def takenNames (s : Shader) (walks : List Walk) : List String :=
  "main" :: s.declarations.flatMap globalNames ++ walks.flatMap otherNames

def total (ns : List Nat) : Nat := ns.foldr (· + ·) 0

/-- The new names of functions, the shortest one for the function that is called most. -/
def functionNaming (taken functions : List String) (walks : List Walk) :
    List (String × String) :=
  let uses := functions.map fun name =>
    total (walks.map fun w => w.seen.count (.function name))
  (ShortName.assign taken uses).filterMap fun (position, name) =>
    functions[position]?.map (·, name)

/-- A declaration at the top of a shader with new names. -/
def renamed (functions : List String) (naming : List (String × String)) (taken : List String)
    (w : Walk) : TopLevel → TopLevel
  | .function f =>
    let plan := ⟨functions, ⟨ShortName.assign taken (symbolUses w), naming⟩⟩
    .function (Walking.run (Walking.function f) plan).1
  | .prototype p => .prototype { p with name := (naming.lookup p.name).getD p.name }
  | .globals d =>
    .globals (Walking.run (Walking.globalDeclaration d) ⟨functions, ⟨[], naming⟩⟩).1
  | d => d

/-- A shader with short names, and the number of symbols that got one. -/
def shader (s : Shader) : Shader × Nat :=
  let functions := functionNames s
  let walks := s.declarations.map (walk ⟨functions, {}⟩)
  let taken := takenNames s walks
  let naming := functionNaming taken functions walks
  let localTaken := taken ++ naming.map (·.2)
  let declarations := (s.declarations.zip walks).map fun (d, w) =>
    renamed functions naming localTaken w d
  ({ s with declarations }, naming.length + total (walks.map (·.next)))

end Mangle

/-- The shader with short names, and the number of symbols that got one. -/
def Shader.mangle (s : Shader) : Shader × Nat := Mangle.shader s

end GlslEs
