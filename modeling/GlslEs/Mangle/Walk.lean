import GlslEs.Scope
import GlslEs.Shader

/-!
# Walking over names

A walk goes through a function in source order and numbers its parameters and local variables as
they are declared.  It notes every occurrence of a name and, at the same time, gives names of a
`Naming` to what occurs.  A walk with the empty naming changes nothing and only finds the
occurrences.
-/

namespace GlslEs

/-- One occurrence of a name: of a numbered local symbol, of a user's function, or of a name that
has to stay as it is. -/
inductive Occurrence where
  | symbol (id : Nat)
  | function (name : String)
  | other (name : String)
deriving DecidableEq, Repr

/-- New names for the numbered symbols of a function and for functions. -/
structure Naming where
  symbols : List (Nat × String) := []
  functions : List (String × String) := []
deriving Repr

/-- The local symbols in scope, by their numbers. -/
abbrev LocalScopes := Scopes Nat

namespace Naming

def variable_ (n : Naming) (scopes : LocalScopes) (name : String) : String :=
  ((scopes.find? name).bind (n.symbols.lookup ·)).getD name

def function (n : Naming) (name : String) : String := (n.functions.lookup name).getD name

def callee (n : Naming) : Callee → Callee
  | .user name => .user (n.function name)
  | c => c

end Naming

/-! ### Expressions -/

namespace Occurrence

def ofVariable (scopes : LocalScopes) (name : String) : Occurrence :=
  match scopes.find? name with
  | some id => .symbol id
  | none => .other name

def ofType (ty : Ty) : List Occurrence :=
  match ty.base with
  | .struct name => [.other name]
  | _ => []

/-- The occurrence of what a call calls; `functions` are the names of users' functions. -/
def ofCallee (functions : List String) : Callee → List Occurrence
  | .user name => [if functions.contains name then .function name else .other name]
  | .builtin name => [.other name]
  | .constructor ty => ofType ty

end Occurrence

namespace Expr

mutual

def rename (n : Naming) (scopes : LocalScopes) : Expr → Expr
  | .lit note value => .lit note value
  | .var note name => .var note (n.variable_ scopes name)
  | .unary note op operand => .unary note op (rename n scopes operand)
  | .binary note op left right => .binary note op (rename n scopes left) (rename n scopes right)
  | .assign note op target value =>
    .assign note op (rename n scopes target) (rename n scopes value)
  | .ternary note condition ifTrue ifFalse =>
    .ternary note (rename n scopes condition) (rename n scopes ifTrue) (rename n scopes ifFalse)
  | .call note callee args => .call note (n.callee callee) (renameAll n scopes args)
  | .swizzle note base set components => .swizzle note (rename n scopes base) set components
  | .field note base name => .field note (rename n scopes base) name
  | .index note base position => .index note (rename n scopes base) (rename n scopes position)
  | .seq note exprs => .seq note (renameAll n scopes exprs)

def renameAll (n : Naming) (scopes : LocalScopes) : List Expr → List Expr
  | [] => []
  | e :: es => rename n scopes e :: renameAll n scopes es

end

def ownOccurrences (functions : List String) (scopes : LocalScopes) : Expr → List Occurrence
  | .var _ name => [.ofVariable scopes name]
  | .call _ callee _ => Occurrence.ofCallee functions callee
  | _ => []

def occurrences (functions : List String) (scopes : LocalScopes) (e : Expr) : List Occurrence :=
  e.nodes.flatMap (ownOccurrences functions scopes)

end Expr

/-! ### Statements -/

/-- The state of a walk: the symbols in scope, the number of the next one and the occurrences so
far. -/
structure Walk where
  scopes : LocalScopes := .empty
  next : Nat := 0
  seen : List Occurrence := []

/-- What stays the same during a walk. -/
structure WalkPlan where
  functions : List String
  naming : Naming := {}

/-- A part of a walk. -/
abbrev Walking (α : Type) := ReaderT WalkPlan (StateM Walk) α

namespace Walking

def notice (found : List Occurrence) : Walking Unit :=
  modify fun w => { w with seen := w.seen ++ found }

def within {α : Type} (act : Walking α) : Walking α := do
  modify fun w => { w with scopes := w.scopes.enter }
  let a ← act
  modify fun w => { w with scopes := w.scopes.exit }
  return a

def declare (name : String) : Walking String := do
  let id := (← get).next
  notice [.symbol id]
  modify fun w => { w with scopes := w.scopes.declare name id, next := id + 1 }
  return ((← read).naming.symbols.lookup id).getD name

def expr (e : Expr) : Walking Expr := do
  let plan ← read
  let scopes := (← get).scopes
  notice (e.occurrences plan.functions scopes)
  return e.rename plan.naming scopes

def array : Option ArrayLength → Walking (Option ArrayLength)
  | some (.sized e) => do return some (.sized (← expr e))
  | other => return other

def declarator (x : Declarator) : Walking Declarator := do
  let length ← array x.array
  let value ← x.value.mapM expr
  let name ← declare x.name
  return { x with array := length, value, name }

def declaration (d : Declaration) : Walking Declaration := do
  notice ((d.struct.map fun s => Occurrence.other s.name).toList ++ Occurrence.ofType d.ty)
  let declarators ← d.declarators.mapM declarator
  return { d with declarators }

/-- Walks over a declaration at the top of a shader; its variables keep their names. -/
def globalDeclaration (d : Declaration) : Walking Declaration := do
  let declarators ← d.declarators.mapM fun x => do
    let length ← array x.array
    let value ← x.value.mapM expr
    return { x with array := length, value }
  return { d with declarators }

def loopStart : LoopStart → Walking LoopStart
  | .absent => return .absent
  | .empty loc => return .empty loc
  | .expr loc e => .expr loc <$> expr e
  | .decl loc d => .decl loc <$> declaration d

mutual

def stmt : Stmt → Walking Stmt
  | .expr loc e => .expr loc <$> expr e
  | .decl loc d => .decl loc <$> declaration d
  | .block loc body => .block loc <$> within (stmts body)
  | .ifThen loc condition thenBranch => do
    let condition ← expr condition
    .ifThen loc condition <$> within (stmt thenBranch)
  | .ifElse loc condition thenBranch elseBranch => do
    let condition ← expr condition
    let thenBranch ← within (stmt thenBranch)
    .ifElse loc condition thenBranch <$> within (stmt elseBranch)
  | .forLoop loc start condition step body => within do
    let start ← loopStart start
    let condition ← condition.mapM expr
    let step ← step.mapM expr
    .forLoop loc start condition step <$> stmt body
  | .whileLoop loc condition body => within do
    let condition ← expr condition
    .whileLoop loc condition <$> stmt body
  | .doWhile loc body condition => within do
    let condition ← expr condition
    let body ← stmt body
    return .doWhile loc body condition
  | .switch loc selector bodyLoc body => do
    let selector ← expr selector
    .switch loc selector bodyLoc <$> within (stmts body)
  | .label loc value => .label loc <$> value.mapM expr
  | .result loc value => .result loc <$> value.mapM expr
  | .jump loc kind => return .jump loc kind
  | .empty loc => return .empty loc

def stmts : List Stmt → Walking (List Stmt)
  | [] => return []
  | s :: ss => do
    let s ← stmt s
    (s :: ·) <$> stmts ss

end

def parameter (x : Parameter) : Walking Parameter := do
  notice (Occurrence.ofType x.ty)
  let length ← array x.array
  let name ← x.name.mapM declare
  return { x with array := length, name }

/-- Walks over a function: its parameters and its body share a scope. -/
def function (f : Function) : Walking Function := do
  let name := (← read).naming.function f.prototype.name
  let parameters ← f.prototype.parameters.mapM parameter
  let body ← stmts f.body
  return { f with prototype := { f.prototype with name, parameters }, body }

def run {α : Type} (act : Walking α) (plan : WalkPlan) : α × Walk :=
  (ReaderT.run act plan).run {}

end Walking

end GlslEs
