import GlslEs.Constant
import GlslEs.Operator

/-!
# Expressions

An expression is a tree; every node carries a `Note` with its type, its qualifiers and its
place.  Reading leaves the type `error` and no qualifiers; resolving names fills them in.

* `Expr.depth`, `Expr.size`: the height of the tree and the number of its nodes.
* `Expr.nodes`: the nodes from left to right, a node before its operands.
* `Expr.hasEffects`: whether evaluating may change a variable or call a user's function.
-/

namespace GlslEs

/-- The qualifiers of a variable or of what is read from it. -/
structure QualifierSet where
  constant : Bool := false
  uniform : Bool := false
  input : Bool := false
  output : Bool := false
  vertexAttribute : Bool := false
  varying : Bool := false
  buffer : Bool := false
  shared : Bool := false
deriving DecidableEq, Repr, Inhabited

namespace QualifierSet

def empty : QualifierSet := {}

def const : QualifierSet := ⟨true, false, false, false, false, false, false, false⟩

def withoutConst (a : QualifierSet) : QualifierSet := { a with constant := false }

def words (a : QualifierSet) : List String :=
  [(a.constant, "const"), (a.uniform, "uniform"), (a.input, "input"), (a.output, "output"),
    (a.vertexAttribute, "attribute"), (a.varying, "varying"), (a.buffer, "buffer"),
    (a.shared, "shared")].filterMap fun (present, word) => if present then some word else none

end QualifierSet

/-- What is known of an expression: its type, its qualifiers and its place. -/
structure Note where
  ty : Ty
  qualifiers : QualifierSet
  loc : Location
deriving DecidableEq, Repr, Inhabited

namespace Note

/-- The note of an expression that has just been read. -/
def unresolved (loc : Location) : Note := ⟨.error, .empty, loc⟩

end Note

/-- The three sets of letters that name components. -/
inductive SwizzleSet where
  | xyzw
  | rgba
  | stpq
deriving DecidableEq, Repr, Inhabited

namespace SwizzleSet

/-- The letters of a set, the first component first. -/
def letters : SwizzleSet → List Char
  | .xyzw => ['x', 'y', 'z', 'w']
  | .rgba => ['r', 'g', 'b', 'a']
  | .stpq => ['s', 't', 'p', 'q']

/-- The components that a word of letters of one set selects. -/
def parse? (word : String) : Option (SwizzleSet × List Nat) := do
  let chars := word.toList
  let first ← chars.head?
  let set ← [SwizzleSet.xyzw, .rgba, .stpq].find? (·.letters.contains first)
  let components ← chars.mapM fun c => set.letters.idxOf? c
  if components.length ≤ 4 then some (set, components) else none

def word (set : SwizzleSet) (components : List Nat) : String :=
  String.ofList (components.filterMap (set.letters[·]?))

end SwizzleSet

/-- What a call calls. -/
inductive Callee where
  | builtin (name : String)
  | constructor (ty : Ty)
  | user (name : String)
deriving DecidableEq, Repr, Inhabited

namespace Callee

def name : Callee → String
  | .builtin name => name
  | .constructor ty => ty.name
  | .user name => name

end Callee

/-- An expression. -/
inductive Expr where
  | lit (note : Note) (value : Constant)
  | var (note : Note) (name : String)
  | unary (note : Note) (op : UnaryOp) (operand : Expr)
  | binary (note : Note) (op : BinaryOp) (left right : Expr)
  | assign (note : Note) (op : AssignOp) (target value : Expr)
  | ternary (note : Note) (condition ifTrue ifFalse : Expr)
  | call (note : Note) (callee : Callee) (args : List Expr)
  | swizzle (note : Note) (base : Expr) (set : SwizzleSet) (components : List Nat)
  | field (note : Note) (base : Expr) (name : String)
  | index (note : Note) (base position : Expr)
  | seq (note : Note) (exprs : List Expr)
deriving Repr, Inhabited

namespace Expr

def note : Expr → Note
  | .lit note _ | .var note _ | .unary note _ _ | .binary note _ _ _ | .assign note _ _ _
  | .ternary note _ _ _ | .call note _ _ | .swizzle note _ _ _ | .field note _ _
  | .index note _ _ | .seq note _ => note

def ty (e : Expr) : Ty := e.note.ty

def qualifiers (e : Expr) : QualifierSet := e.note.qualifiers

def loc (e : Expr) : Location := e.note.loc

/-- The expressions directly below an expression, from left to right. -/
def children : Expr → List Expr
  | .lit .. | .var .. => []
  | .unary _ _ operand => [operand]
  | .binary _ _ left right => [left, right]
  | .assign _ _ target value => [target, value]
  | .ternary _ condition ifTrue ifFalse => [condition, ifTrue, ifFalse]
  | .call _ _ args => args
  | .swizzle _ base _ _ => [base]
  | .field _ base _ => [base]
  | .index _ base position => [base, position]
  | .seq _ exprs => exprs

mutual

def depth : Expr → Nat
  | .lit .. | .var .. => 1
  | .unary _ _ operand => depth operand + 1
  | .binary _ _ left right => max (depth left) (depth right) + 1
  | .assign _ _ target value => max (depth target) (depth value) + 1
  | .ternary _ condition ifTrue ifFalse =>
    max (max (depth condition) (depth ifTrue)) (depth ifFalse) + 1
  | .call _ _ args => depthAll args + 1
  | .swizzle _ base _ _ => depth base + 1
  | .field _ base _ => depth base + 1
  | .index _ base position => max (depth base) (depth position) + 1
  | .seq _ exprs => depthAll exprs + 1

def depthAll : List Expr → Nat
  | [] => 0
  | e :: es => max (depth e) (depthAll es)

end

mutual

/-- The nodes of an expression from left to right, a node before its operands. -/
def nodes : Expr → List Expr
  | e@(.lit ..) => [e]
  | e@(.var ..) => [e]
  | e@(.unary _ _ operand) => e :: nodes operand
  | e@(.binary _ _ left right) => e :: (nodes left ++ nodes right)
  | e@(.assign _ _ target value) => e :: (nodes target ++ nodes value)
  | e@(.ternary _ condition ifTrue ifFalse) =>
    e :: (nodes condition ++ nodes ifTrue ++ nodes ifFalse)
  | e@(.call _ _ args) => e :: nodesAll args
  | e@(.swizzle _ base _ _) => e :: nodes base
  | e@(.field _ base _) => e :: nodes base
  | e@(.index _ base position) => e :: (nodes base ++ nodes position)
  | e@(.seq _ exprs) => e :: nodesAll exprs

def nodesAll : List Expr → List Expr
  | [] => []
  | e :: es => nodes e ++ nodesAll es

end

mutual

/-- Whether evaluating may change a variable or call a user's function. -/
def hasEffects : Expr → Bool
  | .lit .. | .var .. => false
  | .assign .. => true
  | .unary _ op operand => op.isIncrement || hasEffects operand
  | .binary _ _ left right => hasEffects left || hasEffects right
  | .ternary _ condition ifTrue ifFalse =>
    hasEffects condition || hasEffects ifTrue || hasEffects ifFalse
  | .call _ (.user _) _ => true
  | .call _ _ args => hasEffectsAny args
  | .swizzle _ base _ _ => hasEffects base
  | .field _ base _ => hasEffects base
  | .index _ base position => hasEffects base || hasEffects position
  | .seq _ exprs => hasEffectsAny exprs

/-- Whether one of several expressions has an effect. -/
def hasEffectsAny : List Expr → Bool
  | [] => false
  | e :: es => hasEffects e || hasEffectsAny es

end

/-- The variable whose part an expression selects, through any number of selections. -/
def rootVariable? : Expr → Option String
  | .var _ name => some name
  | .swizzle _ base _ _ => rootVariable? base
  | .field _ base _ => rootVariable? base
  | .index _ base _ => rootVariable? base
  | _ => none

def size (e : Expr) : Nat := e.nodes.length

end Expr

end GlslEs
