import GlslEs.Optimize.Identity
import GlslEs.Stmt

/-!
# Rules of optimization

A rule gives a shorter expression with the same value, or declines.  Where it is not certain from
the tree alone that the value stays the same, a rule declines.

* `Rule.expr?`: the shorter expression.
* `Rule.removes`: whether an expression does nothing when it stands as a statement.
-/

namespace GlslEs

/-- Which comparisons may be turned around under a negation. -/
inductive NegationScope where
  | always
  | totalOrderOnly
deriving DecidableEq, Repr, Inhabited

namespace NegationScope

def word : NegationScope → String
  | .always => "always"
  | .totalOrderOnly => "total-order-only"

def ofWord? : String → Option NegationScope
  | "always" => some .always
  | "total-order-only" => some .totalOrderOnly
  | _ => none

/-- Whether `!(a op b)` may become the opposite comparison of operands with the given type.
Without a total order `!(a < b)` and `a >= b` differ. -/
def allows (s : NegationScope) (op : CompareOp) (ty : Ty) : Bool :=
  s = .always || op.isEquality || !ty.isFloat

end NegationScope

/-- A rule of optimization. -/
inductive Rule where
  | unaryIdentity
  | relationalNegation (scope : NegationScope)
  | ternaryNegation
  | additiveIdentity
  | multiplicativeIdentity
deriving DecidableEq, Repr

namespace Rule

def name : Rule → String
  | .unaryIdentity => "unary-identity"
  | .relationalNegation _ => "relational-negation"
  | .ternaryNegation => "ternary-negation"
  | .additiveIdentity => "additive-identity"
  | .multiplicativeIdentity => "multiplicative-identity"

/-- All rules, in the order in which they are tried. -/
def all (scope : NegationScope) : List Rule :=
  [.unaryIdentity, .relationalNegation scope, .ternaryNegation, .additiveIdentity,
    .multiplicativeIdentity]

def ofName? (scope : NegationScope) (name : String) : Option Rule :=
  (all scope).find? (·.name == name)

/-! ### Expressions -/

/-- `+x` is `x`; two equal signs of `-`, `~` or `!` cancel. -/
def unaryIdentity? : Expr → Option Expr
  | .unary _ .plus operand => some operand
  | .unary note op (.unary _ inner innermost) =>
    if !op.isIncrement && inner = op && innermost.ty = note.ty then some innermost else none
  | _ => none

/-- `!(a < b)` is `a >= b`. -/
def relationalNegation? (scope : NegationScope) : Expr → Option Expr
  | .unary note .not (.binary inner (.compare op) left right) =>
    if scope.allows op left.ty then
      some (.binary ⟨note.ty, inner.qualifiers, note.loc⟩ (.compare op.negated) left right)
    else none
  | _ => none

/-- `!c ? a : b` is `c ? b : a`. -/
def ternaryNegation? : Expr → Option Expr
  | .ternary note (.unary _ .not condition) ifTrue ifFalse =>
    some (.ternary note condition ifFalse ifTrue)
  | _ => none

/-- `x + 0`, `0 + x` and `x - 0` are `x`; `0 - x` is `-x`. -/
def additiveIdentity? : Expr → Option Expr
  | .binary note (.arith .add) left right =>
    if right.isZero && left.ty = note.ty then some left
    else if left.isZero && right.ty = note.ty then some right
    else none
  | .binary note (.arith .sub) left right =>
    if right.isZero && left.ty = note.ty then some left
    else if left.isZero && right.ty = note.ty then
      some (.unary ⟨right.ty, note.qualifiers, note.loc⟩ .minus right)
    else none
  | _ => none

/-- Whether an operand works on every component of the other one alike. -/
def isComponentwise (operand other : Ty) : Bool := operand.isScalar || operand = other

/-- `x * 1`, `x / 1` and `1 * x` are `x`; a matrix on the right keeps its factor. -/
def multiplicativeIdentity? : Expr → Option Expr
  | .binary note (.arith .mul) left right =>
    if right.isOne && left.ty = note.ty && isComponentwise right.ty left.ty then some left
    else if left.isOne && right.ty = note.ty && !right.ty.isMatrix &&
        isComponentwise left.ty right.ty then some right
    else none
  | .binary note (.arith .div) left right =>
    if right.isOne && left.ty = note.ty && isComponentwise right.ty left.ty then some left
    else none
  | _ => none

def expr? : Rule → Expr → Option Expr
  | .unaryIdentity => unaryIdentity?
  | .relationalNegation scope => relationalNegation? scope
  | .ternaryNegation => ternaryNegation?
  | .additiveIdentity => additiveIdentity?
  | .multiplicativeIdentity => multiplicativeIdentity?

/-! ### Statements -/

/-- Whether assigning leaves the target as it was: finding the target does nothing else, and the
value is no larger than the target. -/
def keepsTarget (target value : Expr) : Bool :=
  !target.hasEffects && !target.ty.isError && isComponentwise value.ty target.ty

/-- Whether a rule removes an expression that stands as a statement: `x += 0` and `x -= 0`, or
`x *= 1` and `x /= 1`. -/
def removes : Rule → Expr → Bool
  | .additiveIdentity, .assign _ (.joined .add) target value
  | .additiveIdentity, .assign _ (.joined .sub) target value =>
    value.isZero && keepsTarget target value
  | .multiplicativeIdentity, .assign _ (.joined .mul) target value
  | .multiplicativeIdentity, .assign _ (.joined .div) target value =>
    value.isOne && keepsTarget target value
  | _, _ => false

end Rule

end GlslEs
