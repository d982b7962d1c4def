import GlslEs.Constant.Writer
import GlslEs.Expr
import GlslEs.Text.Piece

/-!
# Writing expressions

Parentheses stand only where the levels of the operators need them.

* `Expr.level`: how tightly the outermost operation of an expression binds.
* `Expr.pieces`: the pieces of an expression where at least the given level is needed.
* `Expr.text`: the compact text of an expression.
-/

namespace GlslEs

/-! ### Levels -/

namespace Level

def sequence : Nat := 0

def assign : Nat := 1

/-- Choices between two values; operators with two operands come next. -/
def ternary : Nat := 2

def unary : Nat := 14

/-- Calls, selections and operators behind an operand. -/
def trailing : Nat := 15

def primary : Nat := 16

end Level

namespace Expr

/-- How tightly the outermost operation of an expression binds. -/
def level : Expr → Nat
  | .lit _ value => if value.isNegative then Level.unary else Level.primary
  | .var .. => Level.primary
  | .unary _ op _ => if op.isTrailing then Level.trailing else Level.unary
  | .binary _ op _ _ => op.precedence
  | .assign .. => Level.assign
  | .ternary .. => Level.ternary
  | .call .. | .swizzle .. | .field .. | .index .. => Level.trailing
  | .seq .. => Level.sequence

/-- The level needed in front of a selection: a literal is set in parentheses. -/
def baseLevel : Expr → Nat
  | .lit .. => Level.primary + 1
  | _ => Level.trailing

/-- Pieces in parentheses, if they bind less tightly than needed. -/
def enclosed (needed : Nat) (e : Expr) (ps : List Piece) : List Piece :=
  if e.level < needed then .word "(" :: (ps ++ [.tight ")"]) else ps

mutual

/-- The pieces of an expression where a level is needed. -/
def pieces (needed : Nat) : Expr → List Piece
  | e@(.lit _ value) => enclosed needed e [.word value.spelling]
  | e@(.var _ name) => enclosed needed e [.word name]
  | e@(.unary _ op operand) =>
    enclosed needed e
      (if op.isTrailing then pieces Level.trailing operand ++ [.word op.text]
        else .word op.text :: pieces Level.unary operand)
  | e@(.binary _ op left right) =>
    enclosed needed e
      (pieces op.precedence left ++ [.operator op.text] ++ pieces (op.precedence + 1) right)
  | e@(.assign _ op target value) =>
    enclosed needed e
      (pieces Level.unary target ++ [.operator op.text] ++ pieces Level.assign value)
  | e@(.ternary _ condition ifTrue ifFalse) =>
    enclosed needed e
      (pieces (Level.ternary + 1) condition ++ [.operator "?"] ++ pieces Level.assign ifTrue ++
        [.operator ":"] ++ pieces Level.ternary ifFalse)
  | e@(.call _ callee args) =>
    enclosed needed e ([.word callee.name, .tight "("] ++ itemPieces args ++ [.tight ")"])
  | e@(.swizzle _ base set components) =>
    enclosed needed e
      (pieces base.baseLevel base ++ [.tight ".", .tight (set.word components)])
  | e@(.field _ base name) =>
    enclosed needed e (pieces base.baseLevel base ++ [.tight ".", .tight name])
  | e@(.index _ base position) =>
    enclosed needed e
      (pieces base.baseLevel base ++ [.tight "["] ++ pieces Level.sequence position ++
        [.tight "]"])
  | e@(.seq _ exprs) => enclosed needed e (itemPieces exprs)

def itemPieces : List Expr → List Piece
  | [] => []
  | [e] => pieces Level.assign e
  | e :: es => pieces Level.assign e ++ Piece.comma ++ itemPieces es

end

def text (e : Expr) : String := Piece.render .compact (e.pieces Level.sequence)

end Expr

end GlslEs
