import GlslEs.Check.Problem
import GlslEs.Resolve.Expr

/-!
# Loops that count

A `for` loop counts if its head declares one integer with a constant start, compares it with a
constant, changes it by a constant step, and if nothing in its body changes it.  Within such a
loop the counter may stand in an index as a constant does.

* `Expr.changes`: whether an expression itself changes a variable.
* `loopCounter`: the counter of a loop, or the first reason why there is none.
-/

namespace GlslEs

/-- The arguments of a call that the called function may change. -/
def outputArguments (functions : List Prototype) (name : String) (args : List Expr) : List Expr :=
  match functions.find? fun p => p.name == name && p.parameterTypes == args.map Expr.ty with
  | some p => ((args.zip p.parameters).filter (·.2.direction.writes)).map (·.1)
  | none => []

namespace Expr

/-- Whether an expression is a variable with the given name. -/
def isVariable (name : String) : Expr → Bool
  | .var _ n => n == name
  | _ => false

/-- Whether an expression selects from the variable with the given name. -/
def isPartOf (name : String) (e : Expr) : Bool := e.rootVariable? == some name

/-- Whether the outermost operation of an expression changes a variable: by assigning to it or a
part of it, or by giving it to a function that writes to it. -/
def changes (functions : List Prototype) (name : String) : Expr → Bool
  | .assign _ _ target _ => target.isPartOf name
  | .unary _ op operand => op.isIncrement && operand.isPartOf name
  | .call _ (.user f) args => (outputArguments functions f args).any (·.isPartOf name)
  | _ => false

/-- Whether an expression compares a variable with a constant. -/
def comparesWithConst (name : String) : Expr → Bool
  | .binary _ (.compare _) left right =>
    (left.isVariable name && right.isConst) || (left.isConst && right.isVariable name)
  | _ => false

/-- Whether an expression changes a variable by a constant step. -/
def stepsByConst (name : String) : Expr → Bool
  | .unary _ op operand => op.isIncrement && operand.isVariable name
  | .assign _ (.joined .add) target value => target.isVariable name && value.isConst
  | .assign _ (.joined .sub) target value => target.isVariable name && value.isConst
  | _ => false

end Expr

/-- The variable that the head of a loop declares with a constant start. -/
def LoopStart.counter : LoopStart → Except InductionProblem String
  | .absent => .error .startMissing
  | .decl _ d =>
    match d.declarators with
    | [x] =>
      if x.ty != .int && x.ty != .uint then .error (.counterType x.name)
      else if x.value.any Expr.isConst then .ok x.name
      else .error (.counterStart x.name)
    | _ => .error .severalCounters
  | _ => .error .startIsNoDeclaration

def loopCounter (functions : List Prototype) (start : LoopStart) (condition step : Option Expr)
    (body : Stmt) : Except InductionProblem String := do
  let counter ← start.counter
  match condition with
  | none => throw .conditionMissing
  | some e => if !e.comparesWithConst counter then throw (.condition counter)
  match step with
  | none => throw .stepMissing
  | some e => if !e.stepsByConst counter then throw (.step counter)
  if body.nodes.any (·.changes functions counter) then throw (.changedInBody counter)
  return counter

end GlslEs
