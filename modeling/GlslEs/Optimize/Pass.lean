import GlslEs.Logged
import GlslEs.Optimize.Rule
import GlslEs.Shader

/-!
# One pass over a tree

A pass goes through a tree from the leaves up and applies rules at every node until none applies
there.  Calls of built-in functions are left as they are, and so are array lengths and the labels
of `switch` statements.  Empty statements are dropped from blocks, except directly in the body of
a `switch` statement, where a label may need a statement after it.

The log of a pass says what was applied, in order.
-/

namespace GlslEs

/-- A tree after rules have been applied, with the names of the rules and how often each was applied there. -/
abbrev Optimized (α : Type) := Logged (String × Nat) α

namespace Optimize

/-- The first rule of a list that applies, and what it gives. -/
def firstStep? (rules : List Rule) (e : Expr) : Option (String × Expr) :=
  rules.findSome? fun r => (r.expr? e).map (r.name, ·)

def stepsPerNode : Nat := 64

/-- Applies rules to the top of a tree, at most so often. -/
def settle (rules : List Rule) : Nat → Expr → Optimized Expr
  | 0, e => .quiet e
  | n + 1, e =>
    match firstStep? rules e with
    | none => .quiet e
    | some (name, e') => do
      Logged.note (name, 1)
      settle rules n e'

/-- Applies rules to the top of a tree until none applies. -/
def top (rules : List Rule) (e : Expr) : Optimized Expr := settle rules stepsPerNode e

mutual

def expr (rules : List Rule) : Expr → Optimized Expr
  | .lit note value => top rules (.lit note value)
  | .var note name => top rules (.var note name)
  | .unary note op operand => do
    let operand ← expr rules operand
    top rules (.unary note op operand)
  | .binary note op left right => do
    let left ← expr rules left
    let right ← expr rules right
    top rules (.binary note op left right)
  | .assign note op target value => do
    let target ← expr rules target
    let value ← expr rules value
    top rules (.assign note op target value)
  | .ternary note condition ifTrue ifFalse => do
    let condition ← expr rules condition
    let ifTrue ← expr rules ifTrue
    let ifFalse ← expr rules ifFalse
    top rules (.ternary note condition ifTrue ifFalse)
  | .call note (.builtin name) args => .quiet (.call note (.builtin name) args)
  | .call note callee args => do
    let args ← exprs rules args
    top rules (.call note callee args)
  | .swizzle note base set components => do
    let base ← expr rules base
    top rules (.swizzle note base set components)
  | .field note base name => do
    let base ← expr rules base
    top rules (.field note base name)
  | .index note base position => do
    let base ← expr rules base
    let position ← expr rules position
    top rules (.index note base position)
  | .seq note items => do
    let items ← exprs rules items
    top rules (.seq note items)

def exprs (rules : List Rule) : List Expr → Optimized (List Expr)
  | [] => .quiet []
  | e :: es => do
    let e ← expr rules e
    let es ← exprs rules es
    return e :: es

end

def expr? (rules : List Rule) : Option Expr → Optimized (Option Expr)
  | none => .quiet none
  | some e => some <$> expr rules e

def declaration (rules : List Rule) (d : Declaration) : Optimized Declaration := do
  let declarators ← d.declarators.mapM fun x => do
    return { x with value := ← expr? rules x.value }
  return { d with declarators }

/-- The rule that removes an expression that stands as a statement. -/
def remover? (rules : List Rule) (e : Expr) : Option Rule :=
  rules.find? (·.removes e)

/-- An expression that stands as a statement; `keep` and `drop` say what becomes of it. -/
def standing {α : Type} (rules : List Rule) (e : Expr) (keep : Expr → α) (drop : α) :
    Optimized α := do
  let e ← expr rules e
  match remover? rules e with
  | some r => .noting (r.name, 1) drop
  | none => .quiet (keep e)

def loopStart (rules : List Rule) : LoopStart → Optimized LoopStart
  | .absent => .quiet .absent
  | .empty loc => .quiet (.empty loc)
  | .expr loc e => standing rules e (.expr loc) (.empty loc)
  | .decl loc d => .decl loc <$> declaration rules d

/-- The name under which dropped empty statements are counted. -/
def emptyStatement : String := "empty-statement"

def dropEmpty (ss : List Stmt) : Optimized (List Stmt) :=
  let kept := ss.filter (!·.isEmpty)
  let removed := ss.length - kept.length
  ⟨kept, if removed = 0 then [] else [(emptyStatement, removed)]⟩

mutual

def stmt (rules : List Rule) : Stmt → Optimized Stmt
  | .expr loc e => standing rules e (.expr loc) (.empty loc)
  | .decl loc d => .decl loc <$> declaration rules d
  | .block loc body => do
    let body ← stmts rules body
    .block loc <$> dropEmpty body
  | .ifThen loc condition thenBranch => do
    let condition ← expr rules condition
    .ifThen loc condition <$> stmt rules thenBranch
  | .ifElse loc condition thenBranch elseBranch => do
    let condition ← expr rules condition
    let thenBranch ← stmt rules thenBranch
    .ifElse loc condition thenBranch <$> stmt rules elseBranch
  | .forLoop loc start condition step body => do
    let start ← loopStart rules start
    let condition ← expr? rules condition
    let step ← expr? rules step
    .forLoop loc start condition step <$> stmt rules body
  | .whileLoop loc condition body => do
    let condition ← expr rules condition
    .whileLoop loc condition <$> stmt rules body
  | .doWhile loc body condition => do
    let condition ← expr rules condition
    let body ← stmt rules body
    return .doWhile loc body condition
  | .switch loc selector bodyLoc body => do
    let selector ← expr rules selector
    .switch loc selector bodyLoc <$> stmts rules body
  | .label loc value => .quiet (.label loc value)
  | .result loc value => .result loc <$> expr? rules value
  | .jump loc kind => .quiet (.jump loc kind)
  | .empty loc => .quiet (.empty loc)

def stmts (rules : List Rule) : List Stmt → Optimized (List Stmt)
  | [] => .quiet []
  | s :: ss => do
    let s ← stmt rules s
    let ss ← stmts rules ss
    return s :: ss

end

/-- One pass over a declaration at the top of a shader. -/
def topLevel (rules : List Rule) : TopLevel → Optimized TopLevel
  | .globals d => .globals <$> declaration rules d
  | .function f => do
    let body ← stmts rules f.body
    let body ← dropEmpty body
    return .function { f with body }
  | d => .quiet d

def shader (rules : List Rule) (s : Shader) : Optimized Shader := do
  let declarations ← s.declarations.mapM (topLevel rules)
  return { s with declarations }

end Optimize

end GlslEs
