import GlslEs.Expr
import GlslEs.Token.Cursor

/-!
# Reading expressions

Expressions are read by recursive descent: the comma operator, assignments, the conditional
operator, the binary operators by precedence, the operators in front of an operand, those
behind it, and at last names, literals, calls and parentheses.

The functions call each other at most seven deep before a token is passed; each takes fuel
and gives less to the ones it calls, and `Cursor.fuel` is enough for all of a text.
-/

namespace GlslEs

/-- Enough fuel to read everything in front of a cursor. -/
def Cursor.fuel (c : Cursor) : Nat :=
  16 * (c.rest.length + 1)

namespace Parse

/-- The array length of a constructor, if brackets stand here.  Empty brackets leave the
length to the number of arguments and are written down as zero. -/
def constructorType (ty : Ty) : Parse Ty := do
  if ← accept .leftBracket then
    if ← accept .rightBracket then
      return ty.withArray (some 0)
    let size ← match (← advance).token with
      | .int n => pure n
      | .uint n => pure n
      | other => failPassed (.needed .arraySize other)
    let _ ← expect .rightBracket .bracketClose
    return ty.withArray (some size.toNat)
  else
    return ty

mutual

/-- An expression, commas included. -/
def expression : Nat → Parse Expr
  | 0 => fail .tooDeep
  | fuel + 1 => do
    let first ← assignment fuel
    if ← check .comma then
      let rest ← commaTail fuel
      return .seq (.unresolved first.loc) (first :: rest)
    else
      return first

/-- What follows the first operand of a comma operator. -/
def commaTail : Nat → Parse (List Expr)
  | 0 => fail .tooDeep
  | fuel + 1 => do
    if ← accept .comma then
      let e ← assignment fuel
      return e :: (← commaTail fuel)
    else
      return []

/-- An assignment or what binds tighter; assignments group to the right. -/
def assignment : Nat → Parse Expr
  | 0 => fail .tooDeep
  | fuel + 1 => do
    let target ← conditional fuel
    match ← token with
    | .punct sign =>
      match AssignOp.ofSign? sign with
      | some op =>
        let _ ← advance
        let value ← assignment fuel
        return .assign (.unresolved target.loc) op target value
      | none => return target
    | _ => return target

def conditional : Nat → Parse Expr
  | 0 => fail .tooDeep
  | fuel + 1 => do
    let condition ← binary fuel 0
    if ← accept .question then
      let ifTrue ← expression fuel
      let _ ← expect .colon .ternaryColon
      let ifFalse ← assignment fuel
      return .ternary (.unresolved condition.loc) condition ifTrue ifFalse
    else
      return condition

/-- Binary operators that bind at least as tightly as `min`. -/
def binary : Nat → Nat → Parse Expr
  | 0, _ => fail .tooDeep
  | fuel + 1, min => do
    let left ← unary fuel
    binaryTail fuel min left

/-- The operators after a left operand; they group to the left. -/
def binaryTail : Nat → Nat → Expr → Parse Expr
  | 0, _, _ => fail .tooDeep
  | fuel + 1, min, left => do
    match ← token with
    | .punct sign =>
      match BinaryOp.ofSign? sign with
      | some op =>
        if op.precedence < min then return left
        else
          let _ ← advance
          let right ← binary fuel (op.precedence + 1)
          binaryTail fuel min (.binary (.unresolved left.loc) op left right)
      | none => return left
    | _ => return left

def unary : Nat → Parse Expr
  | 0 => fail .tooDeep
  | fuel + 1 => do
    match ← token with
    | .punct sign =>
      match UnaryOp.leading? sign with
      | some op =>
        let loc := (← advance).loc
        let operand ← unary fuel
        return .unary (.unresolved loc) op operand
      | none => selection fuel
    | _ => selection fuel

/-- An operand with the indices, selections and operators behind it. -/
def selection : Nat → Parse Expr
  | 0 => fail .tooDeep
  | fuel + 1 => do
    let e ← primary fuel
    selectionTail fuel e

/-- The indices, selections and operators behind an operand. -/
def selectionTail : Nat → Expr → Parse Expr
  | 0, _ => fail .tooDeep
  | fuel + 1, e => do
    match ← token with
    | .punct .leftBracket =>
      let _ ← advance
      let position ← expression fuel
      let _ ← expect .rightBracket .indexClose
      selectionTail fuel (.index (.unresolved e.loc) e position)
    | .punct .dot =>
      let _ ← advance
      let field ← name .fieldName
      if ← check .leftParen then fail .methodCall
      selectionTail fuel (.field (.unresolved e.loc) e field)
    | .punct .plusPlus =>
      let _ ← advance
      selectionTail fuel (.unary (.unresolved e.loc) .postIncrement e)
    | .punct .minusMinus =>
      let _ ← advance
      selectionTail fuel (.unary (.unresolved e.loc) .postDecrement e)
    | _ => return e

/-- A literal, a name, a call, a constructor or an expression in parentheses. -/
def primary : Nat → Parse Expr
  | 0 => fail .tooDeep
  | fuel + 1 => do
    let ⟨token, loc⟩ ← advance
    match token with
    | .int value => return .lit (.unresolved loc) (.int value.toInt32)
    | .uint value => return .lit (.unresolved loc) (.uint value)
    | .float value => return .lit (.unresolved loc) (.float value)
    | .bool value => return .lit (.unresolved loc) (.bool value)
    | .punct .leftParen =>
      let e ← expression fuel
      let _ ← expect .rightParen .parenClose
      return e
    | .typeName ty =>
      let ty ← constructorType ty
      let args ← arguments fuel
      return .call (.unresolved loc) (.constructor ty) args
    | .identifier name =>
      if ← isStruct name then
        let ty ← constructorType (.struct name)
        let args ← arguments fuel
        return .call (.unresolved loc) (.constructor ty) args
      else if ← check .leftParen then
        let args ← arguments fuel
        return .call (.unresolved loc) (.user name) args
      else
        return .var (.unresolved loc) name
    | other => failPassed (.missing .expression other)

def arguments : Nat → Parse (List Expr)
  | 0 => fail .tooDeep
  | fuel + 1 => do
    let _ ← expect .leftParen .argumentsOpen
    let args ←
      if ← atVoidList then
        let _ ← advance
        pure []
      else if ← check .rightParen then
        pure []
      else
        let first ← assignment fuel
        let rest ← commaTail fuel
        pure (first :: rest)
    let _ ← expect .rightParen .argumentsClose
    return args

end

end Parse

end GlslEs
