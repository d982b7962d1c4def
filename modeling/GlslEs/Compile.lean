import GlslEs.Check.Shader
import GlslEs.Emit
import GlslEs.Optimize
import GlslEs.Resolve.Shader
import GlslEs.Text.Path

/-!
# Compilation

A source text is read and checked, and, unless only checking is asked for, optimized and written
again.  Where checking finds errors nothing is written, unless partial output is allowed; then
the shader is written as it was read.

* `Request.compile`: the result of a request under a table of limits, with the events on the way.
* `Request.recheck`: the reports about what a request has written.
-/

namespace GlslEs

/-- What is asked for. -/
inductive Mode where
  | optimize
  | validate
deriving DecidableEq, Repr, Inhabited

namespace Mode

def word : Mode → String
  | .optimize => "optimize"
  | .validate => "validate"

def ofName? : String → Option Mode
  | "optimize" => some .optimize
  | "validate" => some .validate
  | _ => none

/-- The mode that a word stands for, in small or capital letters. -/
def ofWord? (word : String) : Option Mode :=
  ofName? (String.ofList (word.toList.map Char.toLower))

/-- What is said about a word that stands for no mode. -/
def unknownMessage (word : String) : String := "不明なコンパイルモードです: " ++ word

end Mode

/-- How far a compilation came. -/
inductive Phase where
  | rejected
  | parsed
  | validated
  | optimized
  | emitted
  | rechecked
deriving DecidableEq, Repr, Inhabited

namespace Phase

def name : Phase → String
  | .rejected => "rejected"
  | .parsed => "parsed"
  | .validated => "validated"
  | .optimized => "optimized"
  | .emitted => "emitted"
  | .rechecked => "revalidated-from-text"

end Phase

/-- One thing to compile. -/
structure Request where
  source : String
  fileName : Option String := none
  mode : Mode := .optimize
  stage : Stage := .fragment
  emit : EmitOptions := {}
  allowPartialOutput : Bool := false
  optimizer : OptimizerOptions := {}
deriving Repr

namespace Request

/-- The request for a file; the extension of a file may give the stage. -/
def withFileName (r : Request) (name : String) : Request :=
  { r with
    fileName := some name
    stage := ((Text.extension? name).bind Stage.ofExtension?).getD r.stage }

def displayName (r : Request) : String := r.fileName.getD "<source>"

end Request

/-- The result of a compilation. -/
structure CompileResult where
  diagnostics : List Diagnostic
  output : Option String := none
  phase : Phase
  optimization : Option OptimizationReport := none
deriving Repr

namespace Diagnostic

def errors (ds : List Diagnostic) : List Diagnostic := ds.filter isError

def warnings (ds : List Diagnostic) : List Diagnostic := ds.filter (!·.isError)

end Diagnostic

namespace CompileResult

def hasErrors (r : CompileResult) : Bool := r.diagnostics.any Diagnostic.isError

/-- All reports, one a line. -/
def infoLog (r : CompileResult) : String := Diagnostic.log r.diagnostics

end CompileResult

/-! ### Events -/

/-- What happens on the way. -/
inductive Event where
  | reading (name : String) (stage : Stage)
  | rejected (name : String) (reports : Nat)
  | checked (name : String) (errors warnings : Nat)
  | withheld (name : String)
  | unoptimized (name : String)
  | passLimit (limit steps : Nat)
  | optimized (name : String) (passes steps : Nat)
  | written (name : String) (bytes : Nat)
  | rechecking (name : String)
  | recheckFailed (name : String)
deriving DecidableEq, Repr

/-- How important an event is. -/
inductive EventLevel where
  | error
  | warn
  | info
deriving DecidableEq, Repr, Inhabited

namespace EventLevel

/-- The rank of a level, the most important one first. -/
def rank : EventLevel → Nat
  | .error => 0
  | .warn => 1
  | .info => 2

end EventLevel

namespace Event

def level : Event → EventLevel
  | .passLimit .. => .error
  | .unoptimized _ | .recheckFailed _ => .warn
  | _ => .info

def message : Event → String
  | .reading name stage => name ++ ": " ++ stage.name ++ " シェーダを解析しています"
  | .rejected name reports => name ++ ": 構文解析に失敗しました (" ++ toString reports ++ " 件の診断)"
  | .checked name errors warnings =>
    name ++ ": 検証しました (エラー " ++ toString errors ++ " 件, 警告 " ++ toString warnings ++ " 件)"
  | .withheld name => name ++ ": 検証エラーのため出力を保留します"
  | .unoptimized name => name ++ ": 検証エラーがありますが、最適化せずに出力します"
  | .passLimit limit steps =>
    "最適化がパス数の上限 " ++ toString limit ++ " に達しました（不動点に到達していません, 書き換え " ++
      toString steps ++ " 件）"
  | .optimized name passes steps =>
    name ++ ": 最適化しました (" ++ toString passes ++ " パス, " ++ toString steps ++ " 件の書き換え)"
  | .written name bytes => name ++ ": " ++ toString bytes ++ " バイトを出力しました"
  | .rechecking name => name ++ ": 出力テキストを再検証しています"
  | .recheckFailed name => name ++ ": 出力テキストの再検証でエラーが見つかりました"

end Event

/-! ### Compiling -/

namespace Shader

def optimize (s : Shader) (name : String) (o : OptimizerOptions) :
    Logged Event (Shader × OptimizationReport) := do
  let optimizer := Optimizer.ofOptions o
  let (optimized, report) := optimizer.shader s
  if !report.reachedFixpoint then
    Logged.note (.passLimit (optimizer.passLimit s.depth) report.applied.length)
  Logged.note (.optimized name report.passes report.applied.length)
  return (optimized, report)

/-- The reports about a shader, those about its names first, in the order of their places. -/
def allReports (s : Shader) (nameReports : List Diagnostic) (stage : Stage) (limits : Limits) :
    List Diagnostic :=
  Diagnostic.sort (nameReports ++ s.check stage limits)

end Shader

namespace Request

def write (r : Request) (s : Shader) (result : CompileResult) : Logged Event CompileResult := do
  let text := s.emit r.emit
  Logged.note (.written r.displayName text.utf8ByteSize)
  return { result with output := some text, phase := .emitted }

def finish (r : Request) (s : Shader) (diagnostics : List Diagnostic) :
    Logged Event CompileResult := do
  let result : CompileResult := { diagnostics, phase := .validated }
  if r.mode = .validate then return result
  if result.hasErrors then
    if r.allowPartialOutput then
      Logged.note (.unoptimized r.displayName)
      r.write s result
    else
      Logged.note (.withheld r.displayName)
      return result
  else
    let (optimized, report) ← s.optimize r.displayName r.optimizer
    r.write optimized { result with optimization := some report, phase := .optimized }

def compile (r : Request) (limits : Limits) : Logged Event CompileResult := do
  Logged.note (.reading r.displayName r.stage)
  match Shader.parse r.source limits with
  | .error report =>
    Logged.note (.rejected r.displayName 1)
    return { diagnostics := [report], phase := .rejected }
  | .ok (s, nameReports) =>
    let diagnostics := s.allReports nameReports r.stage limits
    Logged.note (.checked r.displayName (Diagnostic.errors diagnostics).length
      (Diagnostic.warnings diagnostics).length)
    r.finish s diagnostics

/-- The reports about a text that a request has written. -/
def recheckText (r : Request) (text : String) (limits : Limits) : List Diagnostic :=
  match Shader.parse text limits with
  | .error report => [report]
  | .ok (s, nameReports) => s.allReports nameReports r.stage limits

/-- The result of reading and checking what a request has written. -/
def recheck (r : Request) (result : CompileResult) (limits : Limits) :
    Logged Event (Option CompileResult) := do
  match result.output with
  | none => return none
  | some text =>
    Logged.note (.rechecking r.displayName)
    let diagnostics := r.recheckText text limits
    if diagnostics.any Diagnostic.isError then Logged.note (.recheckFailed r.displayName)
    return some { result with diagnostics, phase := .rechecked }

end Request

end GlslEs
