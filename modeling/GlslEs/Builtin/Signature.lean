import GlslEs.Extension
import GlslEs.Stage
import GlslEs.Ty
import GlslEs.Version

/-!
# Signatures of built-in functions

A built-in function is declared for a family of types at once: `gen` stands for a scalar or a
vector of two to four components, `vec` for a vector, `mat` for a square matrix, and a texture
function for the three kinds of what its sampler reads.  A `Signature` is written over such
slots, and a `Group` of signatures shares the versions, the stage and the extension it needs.
`Group.expand` gives the functions with all slots filled, in a fixed order.
-/

namespace GlslEs

/-- A place in a signature. -/
inductive Slot where
  | gen (s : Scalar)
  | vector (s : Scalar)
  | squareMatrix
  | texel
  | anySampler (t : Texture)
  | fixed (ty : Ty)
  | written (slot : Slot)
deriving DecidableEq, Repr

/-- One way to fill the slots of a signature. -/
structure Filling where
  genSize : Nat
  vectorSize : Nat
  matrixSize : Nat
  component : Scalar

namespace Slot

def fill (f : Filling) : Slot → Ty
  | .gen s => .vector s f.genSize
  | .vector s => .vector s f.vectorSize
  | .squareMatrix => .matrix f.matrixSize f.matrixSize
  | .texel => .vector f.component 4
  | .anySampler t => .sampler t f.component
  | .fixed ty => ty
  | .written slot => slot.fill f

/-- Whether a call writes to the argument in the slot. -/
def isWritten : Slot → Bool
  | .written _ => true
  | _ => false

def isGen : Slot → Bool
  | .gen _ => true
  | .written slot => slot.isGen
  | _ => false

def isVector : Slot → Bool
  | .vector _ => true
  | .written slot => slot.isVector
  | _ => false

def isMatrix : Slot → Bool
  | .squareMatrix => true
  | .written slot => slot.isMatrix
  | _ => false

def isTexture : Slot → Bool
  | .texel => true
  | .anySampler _ => true
  | .written slot => slot.isTexture
  | _ => false

end Slot

/-- A function declared for a family of types. -/
structure Signature where
  name : String
  result : Slot
  parameters : List Slot
deriving DecidableEq, Repr

/-- Which bounds an offset argument has to keep. -/
inductive OffsetKind where
  | texel
  | gather
deriving DecidableEq, Repr, Inhabited

namespace OffsetKind

def name : OffsetKind → String
  | .texel => "texel"
  | .gather => "gather"

end OffsetKind

/-- Signatures that are there under the same conditions. -/
structure Group where
  since : Version
  until? : Option Version := none
  stage? : Option Stage := none
  extension? : Option Extension := none
  offset? : Option OffsetKind := none
  signatures : List Signature

/-- A parameter of a built-in function. -/
structure BuiltinParameter where
  ty : Ty
  isOutput : Bool
deriving DecidableEq, Repr, Inhabited

/-- A built-in function with its types. -/
structure BuiltinFunction where
  name : String
  result : Ty
  parameters : List BuiltinParameter
  since : Version
  until? : Option Version
  stage? : Option Stage
  extension? : Option Extension
  offset? : Option (Nat × OffsetKind)
deriving DecidableEq, Repr, Inhabited

namespace Signature

/-- The ways to fill the slots of a signature; a family that does not occur is filled once. -/
def fillings (s : Signature) : List Filling :=
  let slots := s.result :: s.parameters
  let gens := if slots.any Slot.isGen then [1, 2, 3, 4] else [1]
  let vectors := if slots.any Slot.isVector then [2, 3, 4] else [2]
  let matrices := if slots.any Slot.isMatrix then [2, 3, 4] else [2]
  let components := if slots.any Slot.isTexture then [Scalar.float, .int, .uint] else [.float]
  gens.flatMap fun gen => vectors.flatMap fun vec => matrices.flatMap fun mat =>
    components.map fun component => ⟨gen, vec, mat, component⟩

end Signature

namespace Group

/-- The last integer vector among the parameters, past the first two. -/
def offsetPosition? (parameters : List BuiltinParameter) : Option Nat :=
  let positions := (parameters.zipIdx.filter fun (p, _) => p.ty.isInteger && p.ty.isVector).map (·.2)
  positions.getLast?.filter (2 ≤ ·)

def expand (g : Group) (s : Signature) : List BuiltinFunction :=
  s.fillings.map fun f =>
    let parameters := s.parameters.map fun slot => ⟨slot.fill f, slot.isWritten⟩
    { name := s.name
      result := s.result.fill f
      parameters
      since := g.since
      until? := g.until?
      stage? := g.stage?
      extension? := g.extension?
      offset? := g.offset?.bind fun kind => (offsetPosition? parameters).map (·, kind) }

end Group

namespace BuiltinFunction

def availableIn (f : BuiltinFunction) (v : Version) : Bool :=
  f.since.le v && f.until?.all v.le

/-- Whether the function takes arguments of the given types. -/
def accepts (f : BuiltinFunction) (args : List Ty) : Bool :=
  f.parameters.map (·.ty) == args

def isTexture (f : BuiltinFunction) : Bool :=
  match f.parameters with
  | p :: _ => p.ty.isSampler
  | [] => false

def signature (f : BuiltinFunction) : String :=
  f.result.name ++ " " ++ f.name ++ "(" ++ ", ".intercalate (f.parameters.map (·.ty.name)) ++ ")"

end BuiltinFunction

end GlslEs
