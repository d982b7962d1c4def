import GlslEs.Builtin.Variable
import GlslEs.Declaration
import GlslEs.Resolve.Expr

/-!
# Resolving declarations

Declarations are resolved in source order, each with the names declared before it.  Array
lengths are evaluated and become part of the declared types; an array whose length is not a
positive constant has the type `error`.

`Resolve α` threads the names known so far and the findings in the order in which they arise.
-/

namespace GlslEs

/-- The names known so far and what was found wrong with them. -/
structure Resolution where
  names : Names
  findings : List NameFinding := []

/-- Resolving in source order. -/
abbrev Resolve (α : Type) := StateM Resolution α

namespace Resolve

def names : Resolve Names := do
  return (← get).names

def record (findings : List NameFinding) : Resolve Unit :=
  modify fun r => { r with findings := r.findings ++ findings }

def report (problem : NameProblem) (loc : Location) : Resolve Unit :=
  record [⟨problem, loc⟩]

def updateNames (f : Names → Names) : Resolve Unit :=
  modify fun r => { r with names := f r.names }

def updateSymbols (f : SymbolTable → SymbolTable) : Resolve Unit :=
  updateNames fun n => { n with symbols := f n.symbols }

def within {α : Type} (kind : ScopeKind) (act : Resolve α) : Resolve α := do
  updateSymbols (·.enter kind)
  let a ← act
  updateSymbols SymbolTable.exit
  return a

/-! ### Names -/

def isReservedName (name : String) : Bool :=
  "gl_".toList.isPrefixOf name.toList

def declare (s : Symbol) : Resolve Unit := do
  let n ← names
  if isReservedName s.name then report (.reservedName s.name) s.loc
  else if n.symbols.isGlobal && n.hasFunction s.name then report (.alreadyFunction s.name) s.loc
  else
    match n.symbols.declare s with
    | .ok symbols => updateSymbols fun _ => symbols
    | .error existing => report (.symbolTwice s.name existing.kind existing.loc) s.loc

def markDefined (name : String) (parameters : List Ty) (fs : List FunctionSymbol) :
    List FunctionSymbol :=
  fs.map fun f =>
    if f.name == name && f.parameters == parameters then { f with isDefined := true } else f

/-- Declares a function; `defining` says that its body follows. -/
def declareFunction (p : Prototype) (defining : Bool) : Resolve Unit := do
  let n ← names
  if isReservedName p.name then report (.reservedName p.name) p.loc
  else if (n.symbols.findGlobal? p.name).isSome then report (.alreadyVariable p.name) p.loc
  else if n.version.isEs3 && Builtin.isFunction p.name then report (.builtinFunction p.name) p.loc
  else
    match (n.overloads p.name).find? (·.parameters == p.parameterTypes) with
    | some existing =>
      if existing.result ≠ p.result then report (.resultDiffers p.name) p.loc
      else if defining && existing.isDefined then report (.functionTwice p.name) p.loc
      else if defining then
        updateNames fun n =>
          { n with functions := markDefined p.name p.parameterTypes n.functions }
    | none =>
      updateNames fun n =>
        { n with functions := n.functions ++ [⟨p.name, p.parameterTypes, p.result, defining, p.loc⟩] }

/-! ### Expressions and array lengths -/

def expr (e : Expr) : Resolve Expr := do
  let n ← names
  record (e.nameFindings n)
  return e.resolve n

/-- Resolves an array length; `value` is the type of what the array starts with. -/
def arrayLength (length : ArrayLength) (value : Option Ty) : Resolve (ArrayLength × Option Nat) := do
  match length with
  | .unsized => return (.unsized, value.bind (·.array))
  | .sized e =>
    let e ← expr e
    let n ← names
    let size := (e.evalInt? n.symbols.constant?).filter (0 < ·)
    return (.sized e, size.map Int.toNat)

/-- Resolves an optional array length and gives the declared type. -/
def arrayed (ty : Ty) (array : Option ArrayLength) (value : Option Ty) :
    Resolve (Option ArrayLength × Ty) := do
  match array with
  | none => return (none, ty)
  | some length =>
    let (length, size) ← arrayLength length value
    return (some length, (size.map fun n => ty.withArray (some n)).getD .error)

/-! ### Declarations -/

def members (ms : List Member) : Resolve (List Member) :=
  ms.mapM fun m => do
    let (array, ty) ← arrayed m.ty m.array none
    return { m with array, ty }

def memberTypes (ms : List Member) : MemberTypes :=
  ms.map fun m => (m.name, m.ty)

def structDef (d : StructDef) : Resolve StructDef := do
  let ms ← members d.members
  let n ← names
  if (n.structs.lookup d.name).isSome then report (.structTwice d.name) d.loc
  updateNames fun n => { n with structs := (d.name, memberTypes ms) :: n.structs }
  return { d with members := ms }

/-- Resolves one variable of a declaration and declares it. -/
def declarator (q : TypeQualifiers) (ty : Ty) (d : Declarator) : Resolve Declarator := do
  let value ← d.value.mapM expr
  let (array, ty) ← arrayed ty d.array (value.map Expr.ty)
  let n ← names
  let constant :=
    if q.storage = some .const then value.bind (·.eval? n.symbols.constant?) else none
  declare ⟨d.name, .variable_, ty, q.toSet, constant, d.loc⟩
  return { d with value, array, ty }

def declaration (d : Declaration) : Resolve Declaration := do
  let struct ← d.struct.mapM structDef
  let declarators ← d.declarators.mapM (declarator d.qualifiers d.ty)
  return { d with struct, declarators }

/-- Resolves an interface block; without a name of its own its members are global. -/
def interfaceBlock (b : InterfaceBlock) : Resolve InterfaceBlock := do
  let ms ← members b.members
  updateNames fun n => { n with structs := (b.name, memberTypes ms) :: n.structs }
  let q := b.qualifiers.toSet
  match b.instanceName with
  | some name =>
    let (array, ty) ← arrayed (.struct b.name) b.array none
    declare ⟨name, .variable_, ty, q, none, b.loc⟩
    return { b with members := ms, array }
  | none =>
    for m in ms do
      declare ⟨m.name, .variable_, m.ty, q, none, m.loc⟩
    return { b with members := ms }

/-- Resolves the head of a function and declares the function. -/
def prototype (p : Prototype) (defining : Bool) : Resolve Prototype := do
  let parameters ← p.parameters.mapM fun x => do
    let (array, ty) ← arrayed x.ty x.array none
    return { x with array, ty }
  let p := { p with parameters }
  declareFunction p defining
  return p

end Resolve

end GlslEs
