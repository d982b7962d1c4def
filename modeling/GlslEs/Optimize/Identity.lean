import GlslEs.Expr

/-!
# Neutral elements

Which expressions are spelled-out zeros and ones.  A literal or a constructor of literals is
taken apart into its components; constants with a name are not looked up.
-/

namespace GlslEs

namespace Expr

mutual

/-- The components of a literal, or of a constructor of literals.  A matrix made of more than one
scalar, or anything made of a matrix, has components that no argument shows. -/
def literalComponents? : Expr → Option (List Constant)
  | .lit _ value => some [value]
  | .call _ (.constructor ty) args =>
    if ty.isArray || ty.isStruct || args.any (·.ty.isMatrix) then none
    else if ty.isMatrix && !(args.length = 1 && args.all (·.ty.isScalar)) then none
    else literalComponentsAll? args
  | _ => none

/-- The components of several expressions one after the other. -/
def literalComponentsAll? : List Expr → Option (List Constant)
  | [] => some []
  | e :: es => do
    let first ← literalComponents? e
    let rest ← literalComponentsAll? es
    return first ++ rest

end

/-- Whether an expression has literal components and all of them have a property. -/
def allComponents (p : Constant → Bool) (e : Expr) : Bool :=
  e.literalComponents?.any fun cs => !cs.isEmpty && cs.all p

/-- Whether every component is zero without a minus sign. -/
def isZero (e : Expr) : Bool :=
  e.ty.isNumeric && e.allComponents Constant.isPositiveZero

/-- Whether every component is one; a matrix made of one is not meant. -/
def isOne (e : Expr) : Bool :=
  e.ty.isNumeric && !e.ty.isMatrix && e.allComponents Constant.isOne

end Expr

end GlslEs
