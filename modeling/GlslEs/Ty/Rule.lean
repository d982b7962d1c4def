import GlslEs.Operator

/-!
# Type rules of operators and constructors

The type of an operation follows from the types of its operands alone.  Resolving names uses
these rules to give every expression its type, and checking uses the same rules to find where
no rule applies.

* `UnaryOp.result?`, `BinaryOp.result?`: the type of an operation.
* `Ty.constructorProblem?`: why a constructor does not take its arguments.
-/

namespace GlslEs

def UnaryOp.result? (op : UnaryOp) (operand : Ty) : Option Ty :=
  match op with
  | .not => if operand == .bool then some .bool else none
  | .bitNot =>
    if operand.isInteger && !operand.isArray && !operand.isMatrix then some operand else none
  | _ => if operand.isArithmetic then some operand else none

namespace Ty

/-- The shape of an operation that works component by component: one operand's if the other is
a scalar or has the same shape. -/
def broadcast? (left right : Ty) : Option Ty :=
  if left.shape == right.shape then some left
  else if left.shape == .scalar then some right
  else if right.shape == .scalar then some left
  else none

/-- The type of a sum, difference or quotient. -/
def arithmetic? (left right : Ty) : Option Ty :=
  if left.isArithmetic && right.isArithmetic && left.scalar? == right.scalar? then
    broadcast? left right
  else none

/-- The type of a product: vectors and matrices multiply as in linear algebra. -/
def product? (left right : Ty) : Option Ty :=
  match left, right with
  | ⟨.value .float (.vector n), none⟩, ⟨.value .float (.matrix columns rows), none⟩ =>
    if rows = n then some (vector .float columns) else none
  | ⟨.value .float (.matrix columns rows), none⟩, ⟨.value .float (.vector n), none⟩ =>
    if columns = n then some (vector .float rows) else none
  | ⟨.value .float (.matrix columns rows), none⟩, ⟨.value .float (.matrix columns' rows'), none⟩ =>
    if columns = rows' then some (matrix columns' rows) else none
  | _, _ => arithmetic? left right

/-- The type of a remainder or of an operation on bits. -/
def bitwise? (left right : Ty) : Option Ty :=
  if left.isInteger && left.scalar? == right.scalar? && !left.isMatrix && !right.isMatrix then
    broadcast? left right
  else none

/-- The type of a shift: that of the shifted value. -/
def shift? (left right : Ty) : Option Ty :=
  if left.isInteger && right.isInteger && !left.isArray && !right.isArray then
    match left.shape, right.shape with
    | .scalar, .scalar => some left
    | .vector _, .scalar => some left
    | .vector a, .vector b => if a = b then some left else none
    | _, _ => none
  else none

end Ty

def BinaryOp.result? (op : BinaryOp) (left right : Ty) : Option Ty :=
  if left.isError || right.isError then none
  else
    match op with
    | .compare .eq | .compare .ne =>
      if left == right && !left.isSampler && !left.isVoid then some .bool else none
    | .compare _ =>
      if left == right && left.isScalar && left.isNumeric then some .bool else none
    | .logic _ => if left == .bool && right == .bool then some .bool else none
    | .arith .add | .arith .sub | .arith .div => left.arithmetic? right
    | .arith .mul => left.product? right
    | .arith .mod | .arith .bitAnd | .arith .bitOr | .arith .bitXor => left.bitwise? right
    | .arith .shl | .arith .shr => left.shift? right

/-- Whether an operation can be joined with an assignment: its result has the type of the
target. -/
def BinaryOp.joins (op : BinaryOp) (target value : Ty) : Bool :=
  op.result? target value == some target

/-! ### Constructors -/

/-- Why a constructor does not take its arguments. -/
inductive ConstructorProblem where
  | noArguments (target : Ty)
  | elementCount (target : Ty) (size : Nat)
  | elementType (found element : Ty)
  | memberCount (name : String) (count : Nat)
  | memberType (name : String) (member found : Ty)
  | notConstructible (target : Ty)
  | notAnArgument (found : Ty)
  | oneArgument (target : Ty)
  | matrixFromMatrix
  | unusedArgument (target : Ty) (position : Nat)
  | tooFew (target : Ty) (supplied needed : Nat)
deriving DecidableEq, Repr

namespace ConstructorProblem

def message : ConstructorProblem → String
  | .noArguments target => target.name ++ " の構築子には引数が必要です"
  | .elementCount target size =>
    target.name ++ " の構築子には " ++ toString size ++ " 個の引数が必要です"
  | .elementType found element =>
    "配列構築子の引数 " ++ found.name ++ " は " ++ element.name ++ " ではありません"
  | .memberCount name count =>
    "構造体 " ++ name ++ " の構築子には " ++ toString count ++ " 個の引数が必要です"
  | .memberType name member found =>
    "構造体 " ++ name ++ " のメンバ " ++ member.name ++ " に " ++ found.name ++ " は渡せません"
  | .notConstructible target => target.name ++ " は構築できません"
  | .notAnArgument found => found.name ++ " は構築子の引数にできません"
  | .oneArgument target => target.name ++ " の構築子には引数が1つだけ必要です"
  | .matrixFromMatrix => "行列から行列を構築する場合は引数を1つにする必要があります"
  | .unusedArgument target position =>
    target.name ++ " の構築子の引数 " ++ toString position ++ " は使用されません"
  | .tooFew target supplied needed =>
    target.name ++ " の構築子の引数が足りません（" ++ toString supplied ++ " / " ++
      toString needed ++ " 成分）"

end ConstructorProblem

namespace Ty

/-- Whether values of the base type are made by constructors. -/
def isConstructible (t : Ty) : Bool := t.scalar?.isSome

/-- The arguments of a vector or matrix constructor are used up from the left: none may be
left over, and together they have to reach `needed` components. -/
def suppliedProblem? (target : Ty) (needed : Nat) : Nat → Nat → List Ty → Option ConstructorProblem
  | supplied, _, [] => if supplied < needed then some (.tooFew target supplied needed) else none
  | supplied, position, arg :: args =>
    if needed ≤ supplied then some (.unusedArgument target position)
    else suppliedProblem? target needed (supplied + arg.components) (position + 1) args

/-- Why an array constructor does not take its arguments. -/
def arrayProblem? (target : Ty) (size : Nat) (args : List Ty) : Option ConstructorProblem :=
  if args.length ≠ size then some (.elementCount target size)
  else (args.find? (· != target.element)).map (.elementType · target.element)

/-- Why a structure constructor does not take its arguments. -/
def structProblem? (name : String) (members args : List Ty) : Option ConstructorProblem :=
  if args.length ≠ members.length then some (.memberCount name members.length)
  else ((args.zip members).find? fun (arg, member) => arg != member).map
    fun (arg, member) => .memberType name member arg

/-- Why a scalar, vector or matrix constructor does not take its arguments. -/
def valueProblem? (target : Ty) (args : List Ty) : Option ConstructorProblem :=
  if !target.isConstructible then some (.notConstructible target)
  else
    match args.find? fun arg => arg.isArray || !arg.isConstructible with
    | some arg => some (.notAnArgument arg)
    | none =>
      if target.isScalar then
        if args.length = 1 then none else some (.oneArgument target)
      else if args.length = 1 &&
          args.all fun arg => arg.isScalar || (target.isMatrix && arg.isMatrix) then none
      else if target.isMatrix && args.any isMatrix then some .matrixFromMatrix
      else suppliedProblem? target target.components 0 1 args

/-- Why a constructor does not take its arguments.  `members` are the types of the members if
the target is a structure; an argument without a type is reported elsewhere. -/
def constructorProblem? (target : Ty) (args members : List Ty) : Option ConstructorProblem :=
  if args.any isError then none
  else if args.isEmpty then some (.noArguments target)
  else
    match target.array, target.base with
    | some size, _ => arrayProblem? target size args
    | none, .struct name => structProblem? name members args
    | none, _ => valueProblem? target args

end Ty

end GlslEs
