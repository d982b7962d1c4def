import GlslEs.Expr

/-!
# Declarations

The parts that declarations are made of: qualifiers, array lengths, structure members, the
variables of one declaration, parameters and function headers.  A declaration at the top of a
shader and one inside a function have the same form.
-/

namespace GlslEs

/-- Where a variable is kept. -/
inductive Storage where
  | const
  | uniform
  | input
  | output
  | inout
  | vertexAttribute
  | varying
  | buffer
  | shared
deriving DecidableEq, Repr, Inhabited

namespace Storage

def keyword : Storage → Keyword
  | .const => .const
  | .uniform => .uniform
  | .input => .in_
  | .output => .out
  | .inout => .inout
  | .vertexAttribute => .attribute_
  | .varying => .varying
  | .buffer => .buffer
  | .shared => .shared

def word (s : Storage) : String := s.keyword.text

def ofKeyword? : Keyword → Option Storage
  | .const => some .const
  | .uniform => some .uniform
  | .in_ => some .input
  | .out => some .output
  | .inout => some .inout
  | .attribute_ => some .vertexAttribute
  | .varying => some .varying
  | .buffer => some .buffer
  | .shared => some .shared
  | _ => none

def qualifiers : Storage → QualifierSet
  | .const => .const
  | .uniform => { QualifierSet.empty with uniform := true }
  | .input => { QualifierSet.empty with input := true }
  | .output => { QualifierSet.empty with output := true }
  | .inout => .empty
  | .vertexAttribute => { QualifierSet.empty with vertexAttribute := true, input := true }
  | .varying => { QualifierSet.empty with varying := true }
  | .buffer => { QualifierSet.empty with buffer := true }
  | .shared => { QualifierSet.empty with shared := true }

end Storage

/-- How an input is interpolated. -/
inductive Interpolation where
  | smooth
  | flat
deriving DecidableEq, Repr, Inhabited

namespace Interpolation

def word : Interpolation → String
  | .smooth => "smooth"
  | .flat => "flat"

end Interpolation

/-- One entry of a layout list. -/
structure LayoutEntry where
  name : String
  value : Option Nat
  loc : Location
deriving DecidableEq, Repr, Inhabited

/-- The qualifiers in front of a declaration. -/
structure TypeQualifiers where
  layout : List LayoutEntry := []
  invariant : Bool := false
  interpolation : Option Interpolation := none
  centroid : Bool := false
  storage : Option Storage := none
  precision : Option Precision := none
deriving DecidableEq, Repr, Inhabited

namespace TypeQualifiers

def layoutValue? (q : TypeQualifiers) (name : String) : Option Nat :=
  (q.layout.find? (·.name == name)).bind (·.value)

def toSet (q : TypeQualifiers) : QualifierSet :=
  (q.storage.map Storage.qualifiers).getD .empty

end TypeQualifiers

/-- The length between the brackets of an array. -/
inductive ArrayLength where
  | sized (length : Expr)
  | unsized
deriving Repr, Inhabited

/-- A member of a structure or of an interface block. -/
structure Member where
  name : String
  ty : Ty
  array : Option ArrayLength
  layout : List LayoutEntry
  precision : Option Precision
  loc : Location
deriving Repr, Inhabited

/-- The definition of a structure. -/
structure StructDef where
  name : String
  members : List Member
  loc : Location
deriving Repr, Inhabited

/-- One variable of a declaration. -/
structure Declarator where
  name : String
  ty : Ty
  array : Option ArrayLength
  value : Option Expr
  loc : Location
deriving Repr, Inhabited

/-- A declaration of variables. -/
structure Declaration where
  qualifiers : TypeQualifiers
  ty : Ty
  struct : Option StructDef
  array : Option ArrayLength
  declarators : List Declarator
  loc : Location
deriving Repr, Inhabited

namespace Declaration

/-- The values that the declared variables start with, from left to right. -/
def values (d : Declaration) : List Expr :=
  d.declarators.filterMap (·.value)

end Declaration

/-- Which way the value of a parameter goes. -/
inductive Direction where
  | input
  | output
  | inout
deriving DecidableEq, Repr, Inhabited

namespace Direction

def word : Direction → String
  | .input => "in"
  | .output => "out"
  | .inout => "inout"

def writes : Direction → Bool
  | .input => false
  | _ => true

end Direction

/-- A parameter of a function. -/
structure Parameter where
  name : Option String
  ty : Ty
  array : Option ArrayLength
  isConst : Bool
  direction : Direction
  precision : Option Precision
  loc : Location
deriving Repr, Inhabited

/-- The head of a function. -/
structure Prototype where
  name : String
  result : Ty
  precision : Option Precision
  parameters : List Parameter
  loc : Location
deriving Repr, Inhabited

namespace Prototype

def parameterTypes (p : Prototype) : List Ty :=
  p.parameters.map (·.ty)

end Prototype

/-- A block of variables shared with the outside. -/
structure InterfaceBlock where
  qualifiers : TypeQualifiers
  name : String
  members : List Member
  instanceName : Option String
  array : Option ArrayLength
  loc : Location
deriving Repr, Inhabited

end GlslEs
