import GlslEs.Stmt.Writer

/-!
# What reading finds of a tree

A text says nothing about places and types, and not everything in a tree shows in its text.  `bare` keeps
of a tree what reading its text can give back.

* `Expr.bare`: components are selected as members, and built-in functions are functions of the user.
* `Stmt.bare`: only places and the notes of expressions are lost.
* `Stmt.guarded`: the braces that writing adds in front of `else`, and a loop head without its empty first
  part.
-/

namespace GlslEs

/-! ### Expressions -/

/-- Reading does not know which functions are built in. -/
def Callee.bare : Callee → Callee
  | .builtin name => .user name
  | callee => callee

namespace Expr

mutual

/-- The expression as reading finds it: without places and types, and with components selected as
members. -/
def bare : Expr → Expr
  | .lit _ value => .lit (.unresolved .none) value
  | .var _ name => .var (.unresolved .none) name
  | .unary _ op operand => .unary (.unresolved .none) op (bare operand)
  | .binary _ op left right => .binary (.unresolved .none) op (bare left) (bare right)
  | .assign _ op target value => .assign (.unresolved .none) op (bare target) (bare value)
  | .ternary _ condition ifTrue ifFalse =>
    .ternary (.unresolved .none) (bare condition) (bare ifTrue) (bare ifFalse)
  | .call _ callee args => .call (.unresolved .none) callee.bare (bareAll args)
  | .swizzle _ base set components => .field (.unresolved .none) (bare base) (set.word components)
  | .field _ base name => .field (.unresolved .none) (bare base) name
  | .index _ base position => .index (.unresolved .none) (bare base) (bare position)
  | .seq _ exprs => .seq (.unresolved .none) (bareAll exprs)

/-- Several expressions as reading finds them. -/
def bareAll : List Expr → List Expr
  | [] => []
  | e :: es => bare e :: bareAll es

end

end Expr

/-! ### Declarations -/

/-- An entry without its place. -/
def LayoutEntry.bare (e : LayoutEntry) : LayoutEntry := { e with loc := .none }

/-- Qualifiers without places. -/
def TypeQualifiers.bare (q : TypeQualifiers) : TypeQualifiers := { q with layout := q.layout.map .bare }

/-- A length as reading finds it. -/
def ArrayLength.bare : ArrayLength → ArrayLength
  | .sized e => .sized e.bare
  | .unsized => .unsized

/-- A member as reading finds it. -/
def Member.bare (m : Member) : Member :=
  { m with array := m.array.map .bare, layout := m.layout.map .bare, loc := .none }

/-- A structure as reading finds it. -/
def StructDef.bare (d : StructDef) : StructDef := { d with members := d.members.map .bare, loc := .none }

/-- A variable as reading finds it. -/
def Declarator.bare (x : Declarator) : Declarator :=
  { x with array := x.array.map .bare, value := x.value.map .bare, loc := .none }

/-- A declaration as reading finds it: the length of an array is written behind each name. -/
def Declaration.bare (d : Declaration) : Declaration :=
  { qualifiers := d.qualifiers.bare
    ty := d.ty
    struct := d.struct.map .bare
    array := none
    declarators := d.declarators.map .bare
    loc := .none }

/-! ### Statements -/

/-- The first part of a loop head as reading finds it. -/
def LoopStart.bare : LoopStart → LoopStart
  | .absent => .absent
  | .empty _ => .empty .none
  | .expr _ e => .expr .none e.bare
  | .decl _ d => .decl .none d.bare

/-- An empty first part of a loop head is not written. -/
def LoopStart.guarded : LoopStart → LoopStart
  | .empty _ => .absent
  | start => start

namespace Stmt

mutual

/-- The statement as reading finds it. -/
def bare : Stmt → Stmt
  | .expr _ e => .expr .none e.bare
  | .decl _ d => .decl .none d.bare
  | .block _ body => .block .none (bareAll body)
  | .ifThen _ condition thenBranch => .ifThen .none condition.bare (bare thenBranch)
  | .ifElse _ condition thenBranch elseBranch =>
    .ifElse .none condition.bare (bare thenBranch) (bare elseBranch)
  | .forLoop _ start condition step body =>
    .forLoop .none start.bare (condition.map .bare) (step.map .bare) (bare body)
  | .whileLoop _ condition body => .whileLoop .none condition.bare (bare body)
  | .doWhile _ body condition => .doWhile .none (bare body) condition.bare
  | .switch _ selector _ body => .switch .none selector.bare .none (bareAll body)
  | .label _ value => .label .none (value.map .bare)
  | .result _ value => .result .none (value.map .bare)
  | .jump _ kind => .jump .none kind
  | .empty _ => .empty .none

/-- Statements as reading finds them. -/
def bareAll : List Stmt → List Stmt
  | [] => []
  | s :: ss => bare s :: bareAll ss

end

mutual

/-- The statement with the braces that writing adds: an `if` without `else` is set in a block where its
`else` would be taken for that of another one. -/
def guarded : Stmt → Stmt
  | .block loc body => .block loc (guardedAll body)
  | .ifThen loc condition thenBranch => .ifThen loc condition (guarded thenBranch)
  | .ifElse loc condition thenBranch elseBranch =>
    .ifElse loc condition
      (if thenBranch.endsWithOpenIf then .block .none [guarded thenBranch] else guarded thenBranch)
      (guarded elseBranch)
  | .forLoop loc start condition step body => .forLoop loc start.guarded condition step (guarded body)
  | .whileLoop loc condition body => .whileLoop loc condition (guarded body)
  | .doWhile loc body condition => .doWhile loc (guarded body) condition
  | .switch loc selector bodyLoc body => .switch loc selector bodyLoc (guardedAll body)
  | s => s

/-- Statements with the braces that writing adds. -/
def guardedAll : List Stmt → List Stmt
  | [] => []
  | s :: ss => guarded s :: guardedAll ss

end

end Stmt

end GlslEs
