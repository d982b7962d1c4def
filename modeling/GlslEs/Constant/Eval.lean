import GlslEs.Expr

/-!
# Constant expressions

The value of a constant expression is the list of its components; a scalar has one.  What the
rules do not cover has no value: matrix products, calls of functions, division by zero,
shifts past the width of a word.

* `Constant.unary?`, `Constant.binary?`: the operations on scalars.
* `Expr.eval?`: the components of an expression.
* `Expr.evalInt?`: the value of an integer expression.
-/

namespace GlslEs

namespace Constant

/-- Whether two constants are equal as values: zeros of either sign agree. -/
def eqv : Constant → Constant → Bool
  | .float x, .float y => x.eqv y
  | .int x, .int y => x == y
  | .uint x, .uint y => x == y
  | .bool x, .bool y => x == y
  | _, _ => false

def convert (target : Scalar) : Constant → Constant
  | .float x =>
    match target with
    | .float => .float x
    | .int => .int x.toInt32
    | .uint => .uint x.toUInt32
    | .bool => .bool (!x.eqv .zero)
  | .int x =>
    match target with
    | .float => .float (.ofInt x.toInt)
    | .int => .int x
    | .uint => .uint x.toUInt32
    | .bool => .bool (x != 0)
  | .uint x =>
    match target with
    | .float => .float (.ofInt x.toNat)
    | .int => .int x.toInt32
    | .uint => .uint x
    | .bool => .bool (x != 0)
  | .bool x =>
    match target with
    | .float => .float (if x then .one else .zero)
    | .int => .int (if x then 1 else 0)
    | .uint => .uint (if x then 1 else 0)
    | .bool => .bool x

def unary? : UnaryOp → Constant → Option Constant
  | .plus, c => some c
  | .minus, .float x => some (.float (-x))
  | .minus, .int x => some (.int (-x))
  | .minus, .uint x => some (.uint (-x))
  | .not, .bool x => some (.bool !x)
  | .bitNot, .int x => some (.int (~~~x))
  | .bitNot, .uint x => some (.uint (~~~x))
  | _, _ => none

/-- By how many places a constant shifts, if fewer than a word has. -/
def shiftAmount? : Constant → Option UInt32
  | .int n => if 0 ≤ n.toInt && n.toInt < 32 then some n.toUInt32 else none
  | .uint n => if n.toNat < 32 then some n else none
  | _ => none

/-- The outcome of a comparison, from the order of its operands; operands without an order
satisfy none. -/
def compares (op : CompareOp) (order : Option Ordering) : Bool :=
  match op, order with
  | .lt, some .lt => true
  | .gt, some .gt => true
  | .le, some .lt => true
  | .le, some .eq => true
  | .ge, some .gt => true
  | .ge, some .eq => true
  | .eq, some .eq => true
  | .ne, some .lt => true
  | .ne, some .gt => true
  | .ne, none => true
  | _, _ => false

def floatArith? (op : ArithOp) (x y : Single) : Option Single :=
  match op with
  | .add => some (x + y)
  | .sub => some (x - y)
  | .mul => some (x * y)
  | .div => if y.eqv .zero then none else some (x / y)
  | _ => none

/-- Arithmetic on integers with sign; shifts are covered elsewhere. -/
def intArith? (op : ArithOp) (x y : Int32) : Option Int32 :=
  match op with
  | .add => some (x + y)
  | .sub => some (x - y)
  | .mul => some (x * y)
  | .div => if y == 0 || (x == Int32.minValue && y == -1) then none else some (x / y)
  | .mod => if y == 0 || (x == Int32.minValue && y == -1) then none else some (x % y)
  | .bitAnd => some (x &&& y)
  | .bitOr => some (x ||| y)
  | .bitXor => some (x ^^^ y)
  | _ => none

/-- Arithmetic on integers without sign; shifts are covered elsewhere. -/
def uintArith? (op : ArithOp) (x y : UInt32) : Option UInt32 :=
  match op with
  | .add => some (x + y)
  | .sub => some (x - y)
  | .mul => some (x * y)
  | .div => if y == 0 then none else some (x / y)
  | .mod => if y == 0 then none else some (x % y)
  | .bitAnd => some (x &&& y)
  | .bitOr => some (x ||| y)
  | .bitXor => some (x ^^^ y)
  | _ => none

def shift? (left : Bool) (x amount : Constant) : Option Constant :=
  match x, shiftAmount? amount with
  | .int x, some n => some (.int (if left then x <<< n.toInt32 else x >>> n.toInt32))
  | .uint x, some n => some (.uint (if left then x <<< n else x >>> n))
  | _, _ => none

/-- The order of two constants of one kind, as far as numbers have one. -/
def order? : Constant → Constant → Option (Option Ordering)
  | .float x, .float y => some (x.compare? y)
  | .int x, .int y => some (some (compare x.toInt y.toInt))
  | .uint x, .uint y => some (some (compare x.toNat y.toNat))
  | _, _ => none

def binary? (op : BinaryOp) (x y : Constant) : Option Constant :=
  match op with
  | .arith .shl => shift? true x y
  | .arith .shr => shift? false x y
  | .arith op =>
    match x, y with
    | .float x, .float y => (floatArith? op x y).map .float
    | .int x, .int y => (intArith? op x y).map .int
    | .uint x, .uint y => (uintArith? op x y).map .uint
    | _, _ => none
  | .compare op => (order? x y).map fun order => .bool (compares op order)
  | .logic op =>
    match x, y with
    | .bool x, .bool y =>
      some (.bool (match op with
        | .and => x && y
        | .or => x || y
        | .xor => x != y))
    | _, _ => none

end Constant

namespace Expr

/-- The components of an operation with two operands.  Equality compares all components and
gives one truth value; otherwise a single component is used with each of the other side. -/
def evalBinary? (op : BinaryOp) (left right : List Constant) : Option (List Constant) :=
  if op.isEquality then
    if left.length = right.length then
      let equal := (left.zip right).all fun (x, y) => x.eqv y
      some [.bool (equal == (op == .compare .eq))]
    else none
  else
    match left, right with
    | [x], _ :: _ => right.mapM fun y => Constant.binary? op x y
    | _ :: _, [y] => left.mapM fun x => Constant.binary? op x y
    | _, _ =>
      if left.length = right.length then
        (left.zip right).mapM fun (x, y) => Constant.binary? op x y
      else none

/-- The components of a constructed value: one scalar fills all, else the first components are
taken. -/
def evalConstructor? (ty : Ty) (argCount : Nat) (components : List Constant) :
    Option (List Constant) :=
  match ty with
  | ⟨.value scalar shape, none⟩ =>
    if ty.isMatrix then none
    else
      let size := shape.components
      match components with
      | [] => none
      | x :: rest =>
        if argCount = 1 && rest.isEmpty then some (List.replicate size (x.convert scalar))
        else if size ≤ components.length then
          some ((components.take size).map (Constant.convert scalar))
        else none
  | _ => none

def intValue? : List Constant → Option Int
  | [.int n] => some n.toInt
  | [.uint n] => some n.toNat
  | _ => none

mutual

/-- The components of a constant expression, where `lookup` gives those of names. -/
def eval? (lookup : String → Option (List Constant)) : Expr → Option (List Constant)
  | .lit _ value => some [value]
  | .var _ name => lookup name
  | .unary _ op operand => do
    (← eval? lookup operand).mapM (Constant.unary? op)
  | .binary _ op left right =>
    if op == .arith .mul && (left.ty.isMatrix || right.ty.isMatrix) then none
    else do
      evalBinary? op (← eval? lookup left) (← eval? lookup right)
  | .ternary _ condition ifTrue ifFalse => do
    match ← eval? lookup condition with
    | [.bool true] => eval? lookup ifTrue
    | [.bool false] => eval? lookup ifFalse
    | _ => none
  | .call _ (.constructor ty) args => do
    evalConstructor? ty args.length (← evalAll? lookup args)
  | .swizzle _ base _ components => do
    let values ← eval? lookup base
    components.mapM fun c => values[c]?
  | .index _ base position =>
    if base.ty.isVector then do
      let values ← eval? lookup base
      let n ← intValue? (← eval? lookup position)
      if n < 0 then none else (values[n.toNat]?).map ([·])
    else none
  | .seq _ exprs => evalLast? lookup exprs
  | _ => none

/-- The components of several expressions, one after the other. -/
def evalAll? (lookup : String → Option (List Constant)) : List Expr → Option (List Constant)
  | [] => some []
  | e :: es => do
    return (← eval? lookup e) ++ (← evalAll? lookup es)

/-- The components of the last of several expressions. -/
def evalLast? (lookup : String → Option (List Constant)) : List Expr → Option (List Constant)
  | [] => none
  | [e] => eval? lookup e
  | _ :: es => evalLast? lookup es

end

def evalInt? (lookup : String → Option (List Constant)) (e : Expr) : Option Int :=
  (e.eval? lookup).bind intValue?

end Expr

end GlslEs
