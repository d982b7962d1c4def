import GlslEs.CallGraph
import GlslEs.Check.Capacity
import GlslEs.Check.Stmt

/-!
# Checking shaders

All checks of a shader whose names are resolved, in a fixed order: the extension directives, the
declarations, the function `main`, the capacities of the target and the calls.  Each bound and
each extension in use is reported once, where it is found first.

`Shader.check` gives the reports in the order of their places.
-/

namespace GlslEs

namespace Context

/-- Everything found in a declaration at the top of a shader. -/
def checkTopLevel (c : Context) : TopLevel → List Finding
  | .precision p _ loc => c.checkPrecision (some p) loc
  | .globals d => c.checkDeclaration true d
  | .struct d => c.checkMembers d.members
  | .block b => c.checkBlock b
  | .layout q loc => c.checkLayout q loc
  | .prototype p => c.checkPrototype p
  | .function f => c.checkFunction f

/-- The context after a declaration at the top of a shader. -/
def afterTopLevel (c : Context) : TopLevel → Context
  | .precision _ ty _ => if ty = .float then { c with hasFloatPrecision := true } else c
  | .globals d => c.afterDeclaration d
  | _ => c

def afterTopLevels (c : Context) (ds : List TopLevel) : Context :=
  ds.foldl afterTopLevel c

/-- Everything found in declarations one after the other. -/
def checkTopLevels (c : Context) : List TopLevel → List Finding
  | [] => []
  | d :: ds => c.checkTopLevel d ++ checkTopLevels (c.afterTopLevel d) ds

/-- The calls of functions: no function may call itself, and the chains of calls that start with
`main` are bounded. -/
def checkCalls (c : Context) (s : Shader) : List Finding :=
  let graph := CallGraph.ofFunctions s.functions
  let place (name : String) : Location :=
    ((s.functions.find? (·.prototype.name == name)).map (·.prototype.loc)).getD .none
  graph.recursive.map (fun name => ⟨.recursion name, place name⟩) ++
    match graph.search.depth? "main" with
    | some depth => c.exceeding .maxCallStackDepth depth (.callDepth depth) (place "main")
    | none => []

end Context

namespace Function

def isMain (f : Function) : Bool :=
  f.prototype.name == "main" && f.prototype.parameters.isEmpty && f.prototype.result.isVoid

end Function

namespace Finding

/-- What is reported only once: a bound or an extension in use. -/
inductive Topic where
  | bound (b : Bound)
  | extension (e : Extension)
deriving DecidableEq, Repr

def topic? (f : Finding) : Option Topic :=
  match f.problem with
  | .exceeds _ b _ => some (.bound b)
  | .extensionUsed e => some (.extension e)
  | _ => none

/-- Findings without those whose topic has been reported. -/
def withoutRepeats (reported : List Topic) : List Finding → List Finding
  | [] => []
  | f :: fs =>
    match f.topic? with
    | none => f :: withoutRepeats reported fs
    | some topic =>
      if reported.contains topic then withoutRepeats reported fs
      else f :: withoutRepeats (topic :: reported) fs

end Finding

namespace Shader

/-- Everything found in a shader, in the order of the checks. -/
def findings (s : Shader) (stage : Stage) (limits : Limits) : List Finding :=
  let c := Context.ofShader s stage limits
  let after := c.afterTopLevels s.declarations
  s.extensions.flatMap c.checkDirective ++
    c.checkTopLevels s.declarations ++
    Context.findIf (!s.functions.any Function.isMain) .missingMain
      ((s.declarations.getLast?.map TopLevel.loc).getD .none) ++
    (if stage = .compute && !Version.es310.le s.version then
      [c.unsupported .computeStage .none] else []) ++
    after.checkLoads .zero (after.loads s) ++
    after.checkCalls s

/-- The reports about a shader in the order of their places. -/
def check (s : Shader) (stage : Stage) (limits : Limits) : List Diagnostic :=
  Diagnostic.sort ((Finding.withoutRepeats [] (s.findings stage limits)).map Finding.report)

end Shader

end GlslEs
