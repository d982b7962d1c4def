import GlslEs.Compile
import GlslEs.Limits.Reader

/-!
# Configurations

What holds for every compilation unless a single one says otherwise: the mode, the stage, the
output, the optimization and values for limits.  A configuration is a TOML document with at
most the four tables `compile`, `emit`, `optimizer` and `limits`; an unknown table or key and a
value of the wrong kind make it malformed.  The parts of the first three may also be given by
position, as an array.

* `Config.parse`: the configuration that a text spells.
* `Config.text`: the text of a configuration.
* `Config.request`: the request for a source text.
-/

namespace GlslEs

/-- What holds for every compilation. -/
structure Config where
  mode : Mode := .optimize
  stage : Stage := .fragment
  allowPartialOutput : Bool := false
  emit : EmitOptions := {}
  optimizer : OptimizerOptions := {}
  limits : List (String × LimitValue) := []
deriving DecidableEq, Repr, Inhabited

namespace Config

def limitTable (c : Config) : Except LimitError Limits :=
  Limits.standard.override c.limits

def request (c : Config) (source : String) : Request where
  source := source
  mode := c.mode
  stage := c.stage
  emit := c.emit
  allowPartialOutput := c.allowPartialOutput
  optimizer := c.optimizer

/-! ### Reading -/

/-- The configuration with what the table `compile` says. -/
def readCompile (c : Config) (v : Toml.Value) : Option Config := do
  let parts ← v.record? ["mode", "stage", "allow_partial_output"]
  let mode ← Toml.part parts "mode" (·.word?.bind Mode.ofName?) c.mode
  let stage ← Toml.part parts "stage" (·.word?.bind Stage.ofName?) c.stage
  let allowPartialOutput ←
    Toml.part parts "allow_partial_output" Toml.Value.bool? c.allowPartialOutput
  return { c with mode, stage, allowPartialOutput }

/-- The options of the output with what the table `emit` says. -/
def readEmit (o : EmitOptions) (v : Toml.Value) : Option EmitOptions := do
  let parts ← v.record? ["mangle", "minify", "beautify"]
  let mangle ← Toml.part parts "mangle" Toml.Value.bool? o.mangle
  let minify ← Toml.part parts "minify" Toml.Value.bool? o.minify
  let beautify ← Toml.part parts "beautify" Toml.Value.bool? o.beautify
  return { mangle, minify, beautify }

/-- The options of the optimization with what the table `optimizer` says. -/
def readOptimizer (o : OptimizerOptions) (v : Toml.Value) : Option OptimizerOptions := do
  let parts ← v.record? ["max_passes", "relational_negation"]
  let maxPasses ← Toml.part parts "max_passes" (·.nat?.map some) o.maxPasses
  let negation ←
    Toml.part parts "relational_negation" (·.word?.bind NegationScope.ofWord?) o.negation
  return { maxPasses, negation }

def ofDocument? (d : Toml.Table) : Option Config := do
  let parts ← d.toValue.record? ["compile", "emit", "optimizer", "limits"]
  let c ← Toml.part parts "compile" (readCompile {}) {}
  let emit ← Toml.part parts "emit" (readEmit c.emit) c.emit
  let optimizer ← Toml.part parts "optimizer" (readOptimizer c.optimizer) c.optimizer
  let limits ← Toml.part parts "limits" Limits.valuesOfToml? c.limits
  return { c with emit, optimizer, limits }

/-- The configuration that a text spells; its values for limits are such that the limits take
them. -/
def parse (text : String) : Except ConfigError Config :=
  match (Toml.parse? text).bind ofDocument? with
  | none => .error .malformed
  | some c =>
    match c.limitTable with
    | .ok _ => .ok c
    | .error e => .error (.limit e)

/-! ### Writing -/

def compileTable (c : Config) : List (String × Toml.Atom) :=
  [("mode", .string c.mode.word), ("stage", .string c.stage.name),
    ("allow_partial_output", .bool c.allowPartialOutput)]

def emitTable (c : Config) : List (String × Toml.Atom) :=
  [("mangle", .bool c.emit.mangle), ("minify", .bool c.emit.minify),
    ("beautify", .bool c.emit.beautify)]

def optimizerTable (c : Config) : List (String × Toml.Atom) :=
  (c.optimizer.maxPasses.map fun n => ("max_passes", Toml.Atom.int n)).toList ++
    [("relational_negation", .string c.optimizer.negation.word)]

/-- The values for limits in the order of their names. -/
def limitsTable (c : Config) : List (String × Toml.Atom) :=
  (Limits.sortedByName c.limits).map fun (name, v) => (name, v.toToml)

def text (c : Config) : String :=
  "\n".intercalate [Toml.headedText "compile" c.compileTable, Toml.headedText "emit" c.emitTable,
    Toml.headedText "optimizer" c.optimizerTable, Toml.headedText "limits" c.limitsTable]

end Config

end GlslEs
