import GlslEs.Command.Arguments
import GlslEs.Command.Host

/-!
# Commands

What a command does on a host: it reads its files, compiles, prints the reports and writes the
output.  A command stops at the first file that cannot be used and says why.

* `Host.run`: runs the command that a list of words asks for.
-/

namespace GlslEs

/-- How a command ended. -/
inductive Outcome where
  | clean
  | failed
  | misused
deriving DecidableEq, Repr, Inhabited

namespace Outcome

def code : Outcome → Nat
  | .clean => 0
  | .failed => 1
  | .misused => 2

end Outcome

/-! ### Failures -/

/-- Why a command stopped. -/
inductive Failure where
  | configUnreadable (path : String) (cause : FileError)
  | configInvalid (path : String) (cause : ConfigError)
  | configLimits (cause : LimitError)
  | unreadable (path : String) (cause : FileError)
  | inputUnreadable (cause : FileError)
  | limitsMalformed (path : String) (format : LimitFormat)
  | limitsInvalid (path : String) (cause : LimitError)
  | missing (path : String)
  | notSearchable (path : String) (cause : FileError)
  | notWritable (path : String) (cause : FileError)
deriving DecidableEq, Repr

namespace LimitFormat

def label : LimitFormat → String
  | .json => "JSON"
  | .toml => "TOML"

end LimitFormat

namespace Failure

def message : Failure → String
  | .configUnreadable path cause =>
    "設定ファイル " ++ path ++ " を読み込めませんでした: 設定ファイル `" ++ path ++
      "` を読み込めませんでした: " ++ cause.message ++ ": " ++ cause.message
  | .configInvalid path cause =>
    "設定ファイル " ++ path ++ " を読み込めませんでした: " ++ cause.message
  | .configLimits cause => "設定ファイルの [limits] が不正です: " ++ cause.message
  | .unreadable path cause => path ++ " を読み込めませんでした: " ++ cause.message
  | .inputUnreadable cause => "標準入力を読み込めませんでした: " ++ cause.message
  | .limitsMalformed path format => path ++ " は" ++ format.label ++ "として不正です"
  | .limitsInvalid path cause => path ++ " のリソース制限が不正です: " ++ cause.message
  | .missing path => path ++ " が見つかりません"
  | .notSearchable path cause => path ++ " を走査できませんでした: " ++ cause.message
  | .notWritable path cause => path ++ " に書き込めませんでした: " ++ cause.message

end Failure

/-! ### Notices -/

/-- What a command tells about its progress. -/
inductive Notice where
  | event (e : Event)
  | configRead (path : String)
  | recheckFailed (name : String)
  | recheckPassed (name : String)
  | optimized (name : String) (report : OptimizationReport)
  | saved (name path : String)
  | nothingToCheck
deriving Repr

namespace Notice

def level : Notice → EventLevel
  | .event e => e.level
  | .recheckFailed _ | .nothingToCheck => .warn
  | _ => .info

/-- The part of the program that a notice comes from. -/
def origin : Notice → String
  | .event (.passLimit ..) => "glslight_compiler::optimizer"
  | .event _ => "glslight_compiler::driver::compiler"
  | _ => "glslight::cli"

def message : Notice → String
  | .event e => e.message
  | .configRead path => "設定ファイル " ++ path ++ " を読み込みました"
  | .recheckFailed name => name ++ ": 出力テキストの再検証に失敗しました"
  | .recheckPassed name => name ++ ": 出力テキストの再検証に成功しました"
  | .optimized name report =>
    name ++ ": " ++ toString report.passes ++ " パス, " ++ toString report.applied.length ++
      " 件の書き換え" ++ (if report.reachedFixpoint then "" else "（不動点に未到達）")
  | .saved name path => name ++ " → " ++ path
  | .nothingToCheck => "検証するシェーダが見つかりませんでした"

end Notice

namespace EventLevel

/-- The word of a level, as wide as the widest one. -/
def label : EventLevel → String
  | .error => "ERROR"
  | .warn => "WARN "
  | .info => "INFO "

end EventLevel

namespace Notice

/-- A character of a notice's message: what comes after a line end is set in by four blanks. -/
def indentChar (c : Char) : List Char :=
  if c == '\n' then "\n    ".toList else [c]

/-- The text of a notice.  The file names in a message can hold line ends, so only the first line
of a notice starts at the margin. -/
def line (n : Notice) : String :=
  "[" ++ n.level.label ++ " " ++ n.origin ++ "] " ++
    String.ofList (n.message.toList.flatMap indentChar) ++ "\n"

end Notice

namespace Invocation

def shown (i : Invocation) : EventLevel :=
  if i.quiet then .error else if i.verbosity = 0 then .warn else .info

end Invocation

/-! ### Reports -/

namespace Diagnostic

def fileLine (file : String) (d : Diagnostic) : String :=
  file ++ ":" ++ d.loc.toText ++ ": " ++ d.severity.name ++ ": [" ++ d.code.name ++ "] " ++
    d.message ++ "\n"

def toJson (d : Diagnostic) : Json :=
  .object [("code", .string d.code.name),
    ("location", .object [("column", .int d.loc.column), ("line", .int d.loc.line),
      ("offset", .int d.loc.offset)]),
    ("message", .string d.message), ("severity", .string d.severity.name)]

end Diagnostic

def Request.toJson (r : Request) (result : CompileResult) : Json :=
  .object [("diagnostics", .array (result.diagnostics.map Diagnostic.toJson)),
    ("file", .string r.displayName), ("stage", .string r.stage.name)]

def summaryLine (files errors warnings : Nat) : String :=
  toString files ++ " ファイル: エラー " ++ toString errors ++ " 件, 警告 " ++ toString warnings ++
    " 件\n"

/-! ### Paths -/

/-- The extensions of the files that are looked for in a directory. -/
def shaderExtensions : List String := ["vert", "frag", "comp", "glsl"]

/-- The order of places: each directory by its names. -/
def placeLe : List String → List String → Bool
  | [], _ => true
  | _ :: _, [] => false
  | a :: as, b :: bs => if a == b then placeLe as bs else a < b

def joinPath (path name : String) : String :=
  match path.toList.getLast? with
  | some '/' => path ++ name
  | _ => path ++ "/" ++ name

/-- The paths of the shaders in a directory, in the order of their places. -/
def shaderPaths (directory : String) (files : List (List String)) : List String :=
  let isShader (place : List String) : Bool :=
    match place.getLast?.bind Text.nameExtension? with
    | some extension => shaderExtensions.contains extension
    | none => false
  ((files.filter isShader).mergeSort placeLe).map fun place => place.foldl joinPath directory

/-! ### Running -/

namespace Host

variable {m : Type → Type} [Monad m]

/-- Tells about progress, if it is important enough. -/
def notify (h : Host m) (shown : EventLevel) (n : Notice) : m Unit :=
  if n.level.rank ≤ shown.rank then h.printError n.line else pure ()

/-- Tells about the events on the way to a value and goes on with the value. -/
def follow {α : Type} (h : Host m) (shown : EventLevel) (x : Logged Event α) : m α := do
  x.log.forM fun e => h.notify shown (.event e)
  return x.value

/-- A step on files that stops the command where it does not succeed. -/
def orStop {α : Type} (x : m (Except FileError α)) (cause : FileError → Failure) :
    ExceptT Failure m α :=
  ExceptT.mk do return (← x).mapError cause

def loadConfig (h : Host m) (shown : EventLevel) : Option String → ExceptT Failure m Config
  | none => return {}
  | some path => do
    let text ← orStop (h.readFile path) (.configUnreadable path)
    match Config.parse text with
    | .error e => throw (.configInvalid path e)
    | .ok c =>
      h.notify shown (.configRead path)
      return c

/-- The limits of a configuration with the values in a file. -/
def loadLimits (h : Host m) (c : Config) (path : Option String) : ExceptT Failure m Limits := do
  let base ← ExceptT.mk (pure (c.limitTable.mapError .configLimits))
  match path with
  | none => return base
  | some path =>
    let text ← orStop (h.readFile path) (.unreadable path)
    let format : LimitFormat := if Text.extension? path == some "json" then .json else .toml
    match base.overrideText format text with
    | .ok limits => return limits
    | .error .malformed => throw (.limitsMalformed path format)
    | .error (.limit e) => throw (.limitsInvalid path e)

def report (h : Host m) (file : String) (result : CompileResult) : m Unit :=
  result.diagnostics.forM fun d => h.printError (d.fileLine file)

/-- The source text and the name of an input; a hyphen is the standard input. -/
def readSource (h : Host m) (input : String) : ExceptT Failure m (String × String) := do
  if input == "-" then
    return (← orStop h.readInput .inputUnreadable, "<stdin>")
  else
    return (← orStop (h.readFile input) (.unreadable input), input)

/-- Checks what has been written, and tells whether it is without errors. -/
def recheck (h : Host m) (shown : EventLevel) (r : Request) (result : CompileResult)
    (limits : Limits) : m Bool := do
  match ← h.follow shown (r.recheck result limits) with
  | none => return true
  | some second =>
    if second.hasErrors then
      h.notify shown (.recheckFailed r.displayName)
      h.report (r.displayName ++ " (出力)") second
      return false
    else
      h.notify shown (.recheckPassed r.displayName)
      return true

/-- Writes the output to a file or prints it as whole lines. -/
def deliver (h : Host m) (shown : EventLevel) (name text : String) :
    Option String → ExceptT Failure m Unit
  | some path => do
    orStop (h.writeFile path text) (.notWritable path)
    h.notify shown (.saved name path)
  | none =>
    match text.toList.getLast? with
    | some '\n' => h.print text
    | _ => h.print (text ++ "\n")

end Host

namespace OptimizeJob

def request (job : OptimizeJob) (c : Config) (source name : String) : Request :=
  let r := { c.request source with mode := .optimize }.withFileName name
  { r with
    stage := job.stage.getD r.stage
    emit := ⟨r.emit.mangle || job.emit.mangle, r.emit.minify || job.emit.minify,
      r.emit.beautify || job.emit.beautify⟩
    allowPartialOutput := r.allowPartialOutput || job.allowPartialOutput }

end OptimizeJob

namespace ValidateJob

def request (job : ValidateJob) (c : Config) (source name : String) : Request :=
  let r := c.request source
  { { r with stage := job.stage.getD r.stage }.withFileName name with mode := .validate }

end ValidateJob

namespace Host

variable {m : Type → Type} [Monad m]

def optimize (h : Host m) (shown : EventLevel) (c : Config) (job : OptimizeJob) :
    ExceptT Failure m Outcome := do
  let limits ← h.loadLimits c job.limits
  let (source, name) ← h.readSource job.input
  let r := job.request c source name
  let result ← (h.follow shown (r.compile limits) : m CompileResult)
  h.report name result
  let sound ← if job.recheck then h.recheck shown r result limits else pure true
  if let some report := result.optimization then h.notify shown (.optimized name report)
  if let some text := result.output then h.deliver shown name text job.output
  return if result.hasErrors || !sound then .failed else .clean

/-- The files that an input names: itself, or the shaders in a directory. -/
def expand (h : Host m) (input : String) : ExceptT Failure m (List String) := do
  match ← h.kind? input with
  | none => throw (.missing input)
  | some .file => return [input]
  | some .directory =>
    return shaderPaths input (← orStop (h.filesBelow input) (.notSearchable input))

def validate (h : Host m) (shown : EventLevel) (c : Config) (job : ValidateJob) :
    ExceptT Failure m Outcome := do
  let limits ← h.loadLimits c job.limits
  let files := (← job.inputs.mapM h.expand).flatten
  if files.isEmpty then h.notify shown .nothingToCheck
  let requests ← files.mapM fun file => do
    return job.request c (← orStop (h.readFile file) (.unreadable file)) file
  let results ← requests.mapM fun r => do
    return (r, ← (h.follow shown (r.compile limits) : m CompileResult))
  if job.json then
    h.print ((Json.array (results.map fun (r, result) => r.toJson result)).pretty ++ "\n")
  else
    results.forM fun (r, result) => h.report r.displayName result
  let reports := results.flatMap (·.2.diagnostics)
  let errors := (Diagnostic.errors reports).length
  h.printError (summaryLine files.length errors (Diagnostic.warnings reports).length)
  return if errors = 0 then .clean else .failed

def showLimits (h : Host m) (c : Config) (job : LimitsJob) : ExceptT Failure m Outcome := do
  let limits ← h.loadLimits c job.limits
  h.print ((limits.text job.format).trimAsciiEnd.toString ++ "\n")
  return .clean

def perform (h : Host m) (i : Invocation) : ExceptT Failure m Outcome := do
  let c ← h.loadConfig i.shown i.config
  match i.command with
  | .optimize job => h.optimize i.shown c job
  | .validate job => h.validate i.shown c job
  | .limits job => h.showLimits c job

def usage : String :=
  "GLSL ESシェーダの検証・最適化コンパイラ\n\nUsage: glslight [OPTIONS] <COMMAND>\n"

def run (h : Host m) (words : List String) : m Outcome := do
  match Invocation.ofArguments words with
  | .error .help =>
    h.print usage
    return .clean
  | .error .version =>
    h.print "glslight 0.1.0\n"
    return .clean
  | .error (.usage e) =>
    h.printError ("error: " ++ e.message ++ "\n")
    return .misused
  | .ok i =>
    match ← (h.perform i).run with
    | .ok outcome => return outcome
    | .error failure =>
      h.printError ("エラー: " ++ failure.message ++ "\n")
      return .failed

end Host

end GlslEs
