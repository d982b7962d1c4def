import GlslEs.Optimize.Pass

/-!
# Optimization

Passes follow each other until one of them changes nothing, at most as often as the options or
the height of the tree say.

* `Tally.record`, `Tally.absorb`: rewrites are counted, in all and for each rule.
* `Optimizer.shader`, `Optimizer.expr`: the tree after all passes and a report of them.
-/

namespace GlslEs

/-- What can be chosen about optimization. -/
structure OptimizerOptions where
  maxPasses : Option Nat := none
  negation : NegationScope := .always
deriving DecidableEq, Repr, Inhabited

/-- The rules that are applied and the number of passes allowed. -/
structure Optimizer where
  rules : List Rule
  maxPasses : Option Nat := none
deriving DecidableEq, Repr

/-- How many rewrites there were, and how many of each rule, in the order of the names. -/
structure Tally where
  length : Nat := 0
  perRule : List (String × Nat) := []
deriving DecidableEq, Repr, Inhabited

namespace Tally

/-- Adds to the count of a name, which may not have one yet. -/
def bump (name : String) (count : Nat) : List (String × Nat) → List (String × Nat)
  | [] => [(name, count)]
  | (other, n) :: rest =>
    if name = other then (other, n + count) :: rest
    else if name < other then (name, count) :: (other, n) :: rest
    else (other, n) :: bump name count rest

/-- Counts rewrites of one rule. -/
def record (t : Tally) : String × Nat → Tally
  | (name, count) => ⟨t.length + count, bump name count t.perRule⟩

/-- The rewrites of one pass. -/
def ofLog (log : List (String × Nat)) : Tally := log.foldl record {}

/-- Takes over the rewrites of a pass. -/
def absorb (t pass : Tally) : Tally :=
  ⟨t.length + pass.length, pass.perRule.foldl (fun counts entry => bump entry.1 entry.2 counts) t.perRule⟩

end Tally

/-- What the passes did. -/
structure OptimizationReport where
  passes : Nat := 0
  applied : Tally := {}
  reachedFixpoint : Bool := false
deriving DecidableEq, Repr, Inhabited

/-- How often each rule was applied, in the order of the names. -/
def OptimizationReport.perRule (r : OptimizationReport) : List (String × Nat) := r.applied.perRule

namespace Optimizer

/-- All rules, with the given options. -/
def ofOptions (o : OptimizerOptions) : Optimizer := ⟨Rule.all o.negation, o.maxPasses⟩

/-- The number of passes allowed for a tree of the given height. -/
def passLimit (o : Optimizer) (depth : Nat) : Nat :=
  max (o.maxPasses.getD (max (depth * 2) 4)) 1

/-- Passes until one of them changes nothing, at most so many, after those that are reported. -/
def toFixpoint {α : Type} (pass : α → Optimized α) : Nat → α → OptimizationReport → α × OptimizationReport
  | 0, a, report => (a, report)
  | n + 1, a, report =>
    let next := pass a
    let tally := Tally.ofLog next.log
    let report := { report with passes := report.passes + 1 }
    if tally.length = 0 then (next.value, { report with reachedFixpoint := true })
    else toFixpoint pass n next.value { report with applied := report.applied.absorb tally }

def expr (o : Optimizer) (e : Expr) : Expr × OptimizationReport :=
  toFixpoint (Optimize.expr o.rules) (o.passLimit e.depth) e {}

def shader (o : Optimizer) (s : Shader) : Shader × OptimizationReport :=
  toFixpoint (Optimize.shader o.rules) (o.passLimit s.depth) s {}

end Optimizer

end GlslEs
