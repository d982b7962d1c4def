import GlslEs.Builtin.Function
import GlslEs.Resolve.Problem
import GlslEs.Ty.Rule

/-!
# Resolving expressions

Every expression gets its type and its qualifiers from those of its operands and from the
names in scope.  A selection from a vector becomes a swizzle, and a call of a name that no
user's function has becomes a call of the built-in one.  What no rule covers gets the type
`error`; names that are not declared are listed.

* `Names`: what is known of names at one place.
* `Expr.resolve`: the expression with types and qualifiers.
* `Expr.nameFindings`: the names in it that are not declared, operands first.
-/

namespace GlslEs

/-- A declared function. -/
structure FunctionSymbol where
  name : String
  parameters : List Ty
  result : Ty
  isDefined : Bool
  loc : Location
deriving DecidableEq, Repr, Inhabited

/-- The members of a structure: names and types in order. -/
abbrev MemberTypes := List (String × Ty)

/-- What is known of names at one place of a shader. -/
structure Names where
  version : Version
  symbols : SymbolTable := {}
  functions : List FunctionSymbol := []
  structs : List (String × MemberTypes) := []
deriving Repr

namespace Names

/-- The functions with a name, in the order of their declarations. -/
def overloads (n : Names) (name : String) : List FunctionSymbol :=
  n.functions.filter (·.name == name)

def hasFunction (n : Names) (name : String) : Bool :=
  n.functions.any (·.name == name)

def memberType? (n : Names) (struct member : String) : Option Ty :=
  (n.structs.lookup struct).bind (·.lookup member)

end Names

namespace QualifierSet

def constIf (yes : Bool) : QualifierSet := if yes then .const else .empty

end QualifierSet

namespace Expr

/-- Whether an expression has the qualifier of constants. -/
def isConst (e : Expr) : Bool := e.qualifiers.constant

end Expr

namespace Builtin

/-- The function that a call of a built-in name means: of those that take the arguments, the
first one that the version has, else the first one. -/
def chosen? (version : Version) (name : String) (args : List Ty) : Option BuiltinFunction :=
  let found := matching name args
  (found.find? (·.availableIn version)).or found.head?

/-- Whether a call of the function with constant arguments is a constant. -/
def isFoldable (f : BuiltinFunction) : Bool :=
  !f.isTexture && !f.parameters.any (·.isOutput) && !f.result.isVoid

end Builtin

namespace Names

/-- The type and qualifiers of a call of a built-in function. -/
def builtinNote (n : Names) (loc : Location) (name : String) (args : List Ty) (allConst : Bool) :
    Note :=
  match Builtin.chosen? n.version name args with
  | some f => ⟨f.result, .constIf (allConst && Builtin.isFoldable f), loc⟩
  | none => ⟨.error, .empty, loc⟩

/-- What a call calls, and its type and qualifiers. -/
def resolveCall (n : Names) (loc : Location) (callee : Callee) (args : List Expr) :
    Callee × Note :=
  let types := args.map Expr.ty
  let allConst := !args.isEmpty && args.all Expr.isConst
  match callee with
  | .constructor ty =>
    let ty := if ty.array = some 0 then ty.withArray (some args.length) else ty
    (.constructor ty, ⟨ty, .constIf allConst, loc⟩)
  | .builtin name => (.builtin name, n.builtinNote loc name types allConst)
  | .user name =>
    if n.hasFunction name then
      let result := ((n.overloads name).find? (·.parameters == types)).map (·.result)
      (.user name, ⟨result.getD .error, .empty, loc⟩)
    else if Builtin.isFunction name then
      (.builtin name, n.builtinNote loc name types allConst)
    else (.user name, ⟨.error, .empty, loc⟩)

def fieldType (n : Names) (base : Ty) (member : String) : Ty :=
  match base with
  | ⟨.struct struct, none⟩ => (n.memberType? struct member).getD .error
  | _ => .error

end Names

def Ty.swizzled (base : Ty) (components : List Nat) : Ty :=
  match base with
  | ⟨.value s (.vector size), none⟩ =>
    if components.all (· < size) then .vector s components.length else .error
  | _ => .error

namespace Expr

def resolvedSwizzle (loc : Location) (base : Expr) (set : SwizzleSet) (components : List Nat) :
    Expr :=
  .swizzle ⟨base.ty.swizzled components, base.qualifiers, loc⟩ base set components

mutual

def resolve (n : Names) : Expr → Expr
  | .lit note value => .lit ⟨value.ty, .const, note.loc⟩ value
  | .var note name =>
    match n.symbols.find? name with
    | some s => .var ⟨s.ty, s.qualifiers, note.loc⟩ name
    | none => .var ⟨.error, .empty, note.loc⟩ name
  | .unary note op operand =>
    let operand := resolve n operand
    let qualifiers := if op.isIncrement then .empty else .constIf operand.isConst
    .unary ⟨(op.result? operand.ty).getD .error, qualifiers, note.loc⟩ op operand
  | .binary note op left right =>
    let left := resolve n left
    let right := resolve n right
    .binary ⟨(op.result? left.ty right.ty).getD .error, .constIf (left.isConst && right.isConst),
      note.loc⟩ op left right
  | .assign note op target value =>
    let target := resolve n target
    .assign ⟨target.ty, .empty, note.loc⟩ op target (resolve n value)
  | .ternary note condition ifTrue ifFalse =>
    let condition := resolve n condition
    let ifTrue := resolve n ifTrue
    let ifFalse := resolve n ifFalse
    let ty := if ifTrue.ty = ifFalse.ty then ifTrue.ty else .error
    .ternary ⟨ty, .constIf (condition.isConst && ifTrue.isConst && ifFalse.isConst), note.loc⟩
      condition ifTrue ifFalse
  | .call note callee args =>
    let args := resolveAll n args
    let (callee, note) := n.resolveCall note.loc callee args
    .call note callee args
  | .swizzle note base set components => resolvedSwizzle note.loc (resolve n base) set components
  | .field note base name =>
    let base := resolve n base
    match if base.ty.isVector then SwizzleSet.parse? name else none with
    | some (set, components) => resolvedSwizzle note.loc base set components
    | none => .field ⟨n.fieldType base.ty name, base.qualifiers, note.loc⟩ base name
  | .index note base position =>
    let base := resolve n base
    let position := resolve n position
    let qualifiers :=
      if position.isConst then base.qualifiers else base.qualifiers.withoutConst
    .index ⟨base.ty.indexed?.getD .error, qualifiers, note.loc⟩ base position
  | .seq note exprs =>
    let exprs := resolveAll n exprs
    .seq ⟨(exprs.getLast?.map ty).getD .error, .empty, note.loc⟩ exprs

def resolveAll (n : Names) : List Expr → List Expr
  | [] => []
  | e :: es => resolve n e :: resolveAll n es

end

mutual

/-- The names in an expression that are not declared, operands before operations. -/
def nameFindings (n : Names) : Expr → List NameFinding
  | .lit .. => []
  | .var note name =>
    if (n.symbols.find? name).isSome then [] else [⟨.undeclaredVariable name, note.loc⟩]
  | .unary _ _ operand => nameFindings n operand
  | .binary _ _ left right => nameFindings n left ++ nameFindings n right
  | .assign _ _ target value => nameFindings n target ++ nameFindings n value
  | .ternary _ condition ifTrue ifFalse =>
    nameFindings n condition ++ nameFindings n ifTrue ++ nameFindings n ifFalse
  | .call note callee args =>
    nameFindingsAll n args ++
      match callee with
      | .user name =>
        if n.hasFunction name || Builtin.isFunction name then []
        else [⟨.undeclaredFunction name, note.loc⟩]
      | _ => []
  | .swizzle _ base _ _ => nameFindings n base
  | .field _ base _ => nameFindings n base
  | .index _ base position => nameFindings n base ++ nameFindings n position
  | .seq _ exprs => nameFindingsAll n exprs

/-- The names in several expressions that are not declared. -/
def nameFindingsAll (n : Names) : List Expr → List NameFinding
  | [] => []
  | e :: es => nameFindings n e ++ nameFindingsAll n es

end

end Expr

end GlslEs
