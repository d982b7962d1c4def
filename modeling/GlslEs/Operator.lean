import GlslEs.Token

/-!
# Operators

The operators of expressions, their signs and how tightly the binary ones bind.
-/

namespace GlslEs

/-- Operators with one operand. -/
inductive UnaryOp where
  | plus
  | minus
  | not
  | bitNot
  | preIncrement
  | preDecrement
  | postIncrement
  | postDecrement
deriving DecidableEq, Repr, Inhabited

namespace UnaryOp

def sign : UnaryOp → Punct
  | .plus => .plus
  | .minus => .minus
  | .not => .bang
  | .bitNot => .tilde
  | .preIncrement | .postIncrement => .plusPlus
  | .preDecrement | .postDecrement => .minusMinus

def text (op : UnaryOp) : String := op.sign.text

def isIncrement : UnaryOp → Bool
  | .preIncrement | .preDecrement | .postIncrement | .postDecrement => true
  | _ => false

def isTrailing : UnaryOp → Bool
  | .postIncrement | .postDecrement => true
  | _ => false

/-- The operator that a sign in front of an operand stands for. -/
def leading? : Punct → Option UnaryOp
  | .plus => some .plus
  | .minus => some .minus
  | .bang => some .not
  | .tilde => some .bitNot
  | .plusPlus => some .preIncrement
  | .minusMinus => some .preDecrement
  | _ => none

end UnaryOp

/-- Operators that can be joined with an assignment. -/
inductive ArithOp where
  | add
  | sub
  | mul
  | div
  | mod
  | shl
  | shr
  | bitAnd
  | bitOr
  | bitXor
deriving DecidableEq, Repr, Inhabited

/-- Comparisons. -/
inductive CompareOp where
  | eq
  | ne
  | lt
  | gt
  | le
  | ge
deriving DecidableEq, Repr, Inhabited

/-- Operators on truth values. -/
inductive LogicOp where
  | and
  | or
  | xor
deriving DecidableEq, Repr, Inhabited

/-- Operators with two operands. -/
inductive BinaryOp where
  | arith (op : ArithOp)
  | compare (op : CompareOp)
  | logic (op : LogicOp)
deriving DecidableEq, Repr, Inhabited

namespace ArithOp

def isBitwise : ArithOp → Bool
  | .shl | .shr | .bitAnd | .bitOr | .bitXor => true
  | _ => false

def sign : ArithOp → Punct
  | .add => .plus
  | .sub => .minus
  | .mul => .star
  | .div => .slash
  | .mod => .percent
  | .shl => .leftShift
  | .shr => .rightShift
  | .bitAnd => .ampersand
  | .bitOr => .pipe
  | .bitXor => .caret

/-- The sign of an operator joined with an assignment. -/
def assignSign : ArithOp → Punct
  | .add => .plusEqual
  | .sub => .minusEqual
  | .mul => .starEqual
  | .div => .slashEqual
  | .mod => .percentEqual
  | .shl => .leftShiftEqual
  | .shr => .rightShiftEqual
  | .bitAnd => .ampersandEqual
  | .bitOr => .pipeEqual
  | .bitXor => .caretEqual

end ArithOp

namespace CompareOp

/-- The comparison that holds exactly where this one fails, on values with a total order. -/
def negated : CompareOp → CompareOp
  | .eq => .ne
  | .ne => .eq
  | .lt => .ge
  | .gt => .le
  | .le => .gt
  | .ge => .lt

/-- Whether the comparison asks only whether two values agree. -/
def isEquality : CompareOp → Bool
  | .eq | .ne => true
  | _ => false

def sign : CompareOp → Punct
  | .eq => .equalEqual
  | .ne => .bangEqual
  | .lt => .less
  | .gt => .greater
  | .le => .lessEqual
  | .ge => .greaterEqual

end CompareOp

namespace LogicOp

def sign : LogicOp → Punct
  | .and => .ampersandAmpersand
  | .or => .pipePipe
  | .xor => .caretCaret

end LogicOp

namespace BinaryOp

def sign : BinaryOp → Punct
  | .arith op => op.sign
  | .compare op => op.sign
  | .logic op => op.sign

def text (op : BinaryOp) : String := op.sign.text

def all : List BinaryOp :=
  [ArithOp.add, .sub, .mul, .div, .mod, .shl, .shr, .bitAnd, .bitOr, .bitXor].map .arith ++
    [LogicOp.and, .or, .xor].map .logic ++
    [CompareOp.eq, .ne, .lt, .gt, .le, .ge].map .compare

/-- The operator that a sign between two operands stands for. -/
def ofSign? (sign : Punct) : Option BinaryOp :=
  all.find? (·.sign == sign)

/-- How tightly an operator binds, the loosest at three. -/
def precedence : BinaryOp → Nat
  | .logic .or => 3
  | .logic .xor => 4
  | .logic .and => 5
  | .arith .bitOr => 6
  | .arith .bitXor => 7
  | .arith .bitAnd => 8
  | .compare .eq | .compare .ne => 9
  | .compare _ => 10
  | .arith .shl | .arith .shr => 11
  | .arith .add | .arith .sub => 12
  | .arith _ => 13

/-- The opposite comparison, for a comparison. -/
def negated? : BinaryOp → Option BinaryOp
  | .compare op => some (.compare op.negated)
  | _ => none

def isComparison : BinaryOp → Bool
  | .compare _ => true
  | _ => false

def isEquality : BinaryOp → Bool
  | .compare op => op.isEquality
  | _ => false

def isRelational : BinaryOp → Bool
  | .compare op => !op.isEquality
  | _ => false

def isBitwise : BinaryOp → Bool
  | .arith op => op.isBitwise
  | _ => false

end BinaryOp

/-- Assignments: a plain one or one joined with an operator. -/
inductive AssignOp where
  | plain
  | joined (op : ArithOp)
deriving DecidableEq, Repr, Inhabited

namespace AssignOp

def sign : AssignOp → Punct
  | .plain => .equal
  | .joined op => op.assignSign

def text (op : AssignOp) : String := op.sign.text

def all : List AssignOp :=
  .plain :: [ArithOp.add, .sub, .mul, .div, .mod, .shl, .shr, .bitAnd, .bitOr, .bitXor].map .joined

def ofSign? (sign : Punct) : Option AssignOp :=
  all.find? (·.sign == sign)

end AssignOp

end GlslEs
