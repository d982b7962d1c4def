import GlslEs.Check.Declaration
import GlslEs.Check.Induction

/-!
# Checking statements

Statements are checked in order.  Only a declaration changes what is known for the statements
after it: everything else that declares names does so in a scope of its own.

`Context.checkStmt` gives what is found in a statement and `Context.after` the context after it.
-/

namespace GlslEs

namespace Context

def after (c : Context) : Stmt → Context
  | .decl _ d => c.afterDeclaration d
  | _ => c

def afterStart (c : Context) : LoopStart → Context
  | .decl _ d => c.afterDeclaration d
  | _ => c

def checkStart (c : Context) : LoopStart → List Finding
  | .absent | .empty _ => []
  | .expr _ e => c.checkWhole e
  | .decl _ d => c.checkDeclaration false d

def checkResult (c : Context) (loc : Location) : Option Expr → List Finding
  | some e =>
    c.checkWhole e ++
      findIf (!e.ty.isError && !c.result.isError && e.ty != c.result)
        (.type (.resultType c.result e.ty)) e.loc
  | none => findIf (!c.result.isVoid) (.type (.resultMissing c.result)) loc

/-- The selector of a `switch` statement. -/
def checkSelector (c : Context) (loc : Location) (e : Expr) : List Finding :=
  c.needsEs3 .switch loc ++ c.checkWhole e ++
    findIf (!e.ty.isError && !(e.ty.isInteger && e.ty.isScalar)) (.type (.selector e.ty)) e.loc

/-- A label of a `switch` statement. -/
def checkLabel (c : Context) : Option Expr → List Finding
  | some e =>
    c.checkWhole e ++ findIf (!e.isConst && !e.ty.isError) (.constant .caseLabel) e.loc
  | none => []

def checkTest (c : Context) (place : ConditionPlace) (e : Expr) : List Finding :=
  c.checkWhole e ++ checkCondition place e

/-- The context in the body of a `for` loop that comes after its head, with the counter that the
loop has. -/
def inLoop (c : Context) (counter : Except InductionProblem String) : Context :=
  match counter with
  | .ok name => { c with counters := name :: c.counters }
  | .error _ => c

/-- A `for` loop that does not count. -/
def checkInduction (c : Context) (loc : Location) :
    Except InductionProblem String → List Finding
  | .ok _ => []
  | .error p => findIf (!c.limits.permits .nonInductiveForLoops) (.loop (.forLoop p)) loc

mutual

/-- Everything found in a statement; `inner` says that braces open no scope of their own. -/
def checkStmt (c : Context) (inner : Bool) : Stmt → List Finding
  | .expr _ e => c.checkWhole e
  | .decl _ d => c.checkDeclaration false d
  | .block _ body => checkStmts (if inner then c else c.enter) body
  | .ifThen _ condition thenBranch =>
    c.checkTest .ifStatement condition ++ checkStmt c.enter true thenBranch
  | .ifElse _ condition thenBranch elseBranch =>
    c.checkTest .ifStatement condition ++ checkStmt c.enter true thenBranch ++
      checkStmt c.enter true elseBranch
  | .forLoop loc start condition step body =>
    let head := c.enter.afterStart start
    let counter := loopCounter c.functions start condition step body
    c.enter.checkStart start ++
      (condition.map (head.checkTest .forLoop)).getD [] ++
      (step.map head.checkWhole).getD [] ++
      c.checkInduction loc counter ++
      checkStmt (head.inLoop counter) true body
  | .whileLoop loc condition body =>
    c.enter.checkTest .whileLoop condition ++
      findIf (!c.limits.permits .whileLoops) (.loop .whileLoop) loc ++
      checkStmt c.enter false body
  | .doWhile loc body condition =>
    c.enter.checkTest .doWhile condition ++
      findIf (!c.limits.permits .doWhileLoops) (.loop .doWhile) loc ++
      checkStmt c.enter false body
  | .switch loc selector _ body => c.checkSelector loc selector ++ checkStmts c.enter body
  | .label _ value => c.checkLabel value
  | .result loc value => c.checkResult loc value
  | .jump loc kind =>
    findIf (kind = .discard && c.stage != .fragment) (.stage (.discard c.stage)) loc
  | .empty _ => []

/-- Everything found in statements one after the other. -/
def checkStmts (c : Context) : List Stmt → List Finding
  | [] => []
  | s :: ss => checkStmt c false s ++ checkStmts (c.after s) ss

end

/-- A function: its parameters and its body share a scope. -/
def checkFunction (c : Context) (f : Function) : List Finding :=
  let inside := f.prototype.parameters.foldl
    (fun c x => (x.name.map (c.declare · none)).getD c)
    { c.enter with result := f.prototype.result }
  c.checkPrototype f.prototype ++ inside.checkStmts f.body

end Context

end GlslEs
