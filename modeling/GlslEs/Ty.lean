/-!
# Types

A type is a base and, for arrays, a length.  The base of a numeric or Boolean value is a
scalar kind with a shape; samplers, structures and `void` have no shape of their own and
count as scalars where a shape is asked for.  The language converts nothing implicitly, so
two types agree only when they are equal.

* `Ty.ofKeyword?` reads a type word and `Ty.baseName` writes it.
* `Ty.indexed?` and `Ty.indexBound?` say what `x[i]` has and how far `i` may go.
-/

namespace GlslEs

/-- The kinds of scalar. -/
inductive Scalar where
  | float
  | int
  | uint
  | bool
deriving DecidableEq, Repr, Inhabited

/-- The shapes of textures that a sampler reads. -/
inductive Texture where
  | plane
  | volume
  | cube
  | planeArray
  | cubeArray
  | planeMultisample
  | planeShadow
  | cubeShadow
  | planeArrayShadow
  | external
  | rectangle
deriving DecidableEq, Repr, Inhabited

/-- A sampler: the texture it reads and the kind of what it reads. -/
structure Sampler where
  texture : Texture
  component : Scalar
deriving DecidableEq, Repr, Inhabited

/-- How the components of a value are arranged. -/
inductive Shape where
  | scalar
  | vector (size : Nat)
  | matrix (columns rows : Nat)
deriving DecidableEq, Repr, Inhabited

/-- What a type is apart from being an array. -/
inductive Base where
  | void
  | value (scalar : Scalar) (shape : Shape)
  | sampler (sampler : Sampler)
  | struct (name : String)
  | error
deriving DecidableEq, Repr, Inhabited

/-- A type. -/
structure Ty where
  base : Base
  array : Option Nat := none
deriving DecidableEq, Repr, Inhabited

namespace Texture

def all : List Texture :=
  [.plane, .volume, .cube, .planeArray, .cubeArray, .planeMultisample, .planeShadow, .cubeShadow,
    .planeArrayShadow, .external, .rectangle]

def word : Texture → String
  | .plane => "2D"
  | .volume => "3D"
  | .cube => "Cube"
  | .planeArray => "2DArray"
  | .cubeArray => "CubeArray"
  | .planeMultisample => "2DMS"
  | .planeShadow => "2DShadow"
  | .cubeShadow => "CubeShadow"
  | .planeArrayShadow => "2DArrayShadow"
  | .external => "ExternalOES"
  | .rectangle => "2DRect"

def holdsIntegers : Texture → Bool
  | .planeShadow | .cubeShadow | .planeArrayShadow | .external | .rectangle => false
  | _ => true

end Texture

namespace Sampler

def name (s : Sampler) : String :=
  match s.component with
  | .int => "isampler" ++ s.texture.word
  | .uint => "usampler" ++ s.texture.word
  | _ => "sampler" ++ s.texture.word

def all : List Sampler :=
  Texture.all.map (⟨·, .float⟩) ++
    (Texture.all.filter Texture.holdsIntegers).map (⟨·, .int⟩) ++
    (Texture.all.filter Texture.holdsIntegers).map (⟨·, .uint⟩)

def ofName? (word : String) : Option Sampler :=
  all.find? (·.name == word)

end Sampler

namespace Shape

/-- A vector of the given size; one component is a scalar. -/
def ofSize (size : Nat) : Shape :=
  if size ≤ 1 then .scalar else .vector size

def components : Shape → Nat
  | .scalar => 1
  | .vector n => n
  | .matrix columns rows => columns * rows

def rows : Shape → Nat
  | .scalar => 1
  | .vector n => n
  | .matrix _ rows => rows

/-- The number of columns; what is no matrix is one column. -/
def columns : Shape → Nat
  | .matrix columns _ => columns
  | _ => 1

end Shape

namespace Base

/-- The shape of a base; what holds no components counts as a scalar. -/
def shape : Base → Shape
  | .value _ shape => shape
  | _ => .scalar

def scalar? : Base → Option Scalar
  | .value scalar _ => some scalar
  | _ => none

end Base

namespace Ty

def void : Ty := ⟨.void, none⟩

def error : Ty := ⟨.error, none⟩

def ofScalar (s : Scalar) : Ty := ⟨.value s .scalar, none⟩

def float : Ty := ofScalar .float

def int : Ty := ofScalar .int

def uint : Ty := ofScalar .uint

def bool : Ty := ofScalar .bool

/-- The vector with the given size; one component is a scalar. -/
def vector (s : Scalar) (size : Nat) : Ty := ⟨.value s (.ofSize size), none⟩

def matrix (columns rows : Nat) : Ty := ⟨.value .float (.matrix columns rows), none⟩

def sampler (texture : Texture) (component : Scalar) : Ty := ⟨.sampler ⟨texture, component⟩, none⟩

def struct (name : String) : Ty := ⟨.struct name, none⟩

def withArray (t : Ty) (array : Option Nat) : Ty := ⟨t.base, array⟩

def element (t : Ty) : Ty := ⟨t.base, none⟩

/-- The shape; what holds no components counts as a scalar. -/
def shape (t : Ty) : Shape := t.base.shape

def scalar? (t : Ty) : Option Scalar := t.base.scalar?

/-! ### Classes of types -/

def isError (t : Ty) : Bool := t.base == .error

def isVoid (t : Ty) : Bool := t.base == .void

def isArray (t : Ty) : Bool := t.array.isSome

def isScalar (t : Ty) : Bool := !t.isArray && t.shape == .scalar

def isVector (t : Ty) : Bool :=
  !t.isArray && match t.shape with
    | .vector _ => true
    | _ => false

def isMatrix (t : Ty) : Bool :=
  !t.isArray && match t.shape with
    | .matrix .. => true
    | _ => false

def isFloat (t : Ty) : Bool := t.scalar? == some .float

def isInteger (t : Ty) : Bool := t.scalar? == some .int || t.scalar? == some .uint

def isNumeric (t : Ty) : Bool := t.isFloat || t.isInteger

def isBool (t : Ty) : Bool := t.scalar? == some .bool

def isSampler (t : Ty) : Bool :=
  match t.base with
  | .sampler _ => true
  | _ => false

def isStruct (t : Ty) : Bool :=
  match t.base with
  | .struct _ => true
  | _ => false

/-- A number, a vector of numbers or a matrix. -/
def isArithmetic (t : Ty) : Bool := !t.isArray && t.isNumeric

/-! ### Components and indices -/

def components (t : Ty) : Nat := t.shape.components

/-- The number of components of a column of one element. -/
def vectorSize (t : Ty) : Nat := t.shape.rows

/-- The type of `x[i]`: an element, a component or a column. -/
def indexed? (t : Ty) : Option Ty :=
  match t with
  | ⟨base, some _⟩ => some ⟨base, none⟩
  | ⟨.value s (.vector _), none⟩ => some (ofScalar s)
  | ⟨.value s (.matrix _ rows), none⟩ => some (vector s rows)
  | _ => none

/-- How many values of `i` are in range in `x[i]`. -/
def indexBound? (t : Ty) : Option Nat :=
  match t with
  | ⟨_, some size⟩ => some size
  | ⟨.value _ (.vector n), none⟩ => some n
  | ⟨.value _ (.matrix columns _), none⟩ => some columns
  | _ => none

/-- The number of four-component slots, a column each; a structure counts as one. -/
def vectorSlots (t : Ty) : Nat := t.shape.columns * t.array.getD 1

/-! ### Type words -/

def valueName (s : Scalar) : Shape → String
  | .scalar =>
    match s with
    | .float => "float"
    | .int => "int"
    | .uint => "uint"
    | .bool => "bool"
  | .vector n =>
    match s with
    | .float => "vec" ++ toString n
    | .int => "ivec" ++ toString n
    | .uint => "uvec" ++ toString n
    | .bool => "bvec" ++ toString n
  | .matrix columns rows =>
    if columns = rows then "mat" ++ toString columns
    else "mat" ++ toString columns ++ "x" ++ toString rows

def baseName (t : Ty) : String :=
  match t.base with
  | .void => "void"
  | .value s shape => valueName s shape
  | .sampler s => s.name
  | .struct name => name
  | .error => "<error>"

def name (t : Ty) : String :=
  match t.array with
  | some size => t.baseName ++ "[" ++ toString size ++ "]"
  | none => t.baseName

def ofKeyword? (word : String) : Option Ty :=
  match word with
  | "void" => some void
  | "float" => some float
  | "int" => some int
  | "uint" => some uint
  | "bool" => some bool
  | "vec2" => some (vector .float 2)
  | "vec3" => some (vector .float 3)
  | "vec4" => some (vector .float 4)
  | "ivec2" => some (vector .int 2)
  | "ivec3" => some (vector .int 3)
  | "ivec4" => some (vector .int 4)
  | "uvec2" => some (vector .uint 2)
  | "uvec3" => some (vector .uint 3)
  | "uvec4" => some (vector .uint 4)
  | "bvec2" => some (vector .bool 2)
  | "bvec3" => some (vector .bool 3)
  | "bvec4" => some (vector .bool 4)
  | "mat2" | "mat2x2" => some (matrix 2 2)
  | "mat3" | "mat3x3" => some (matrix 3 3)
  | "mat4" | "mat4x4" => some (matrix 4 4)
  | "mat2x3" => some (matrix 2 3)
  | "mat2x4" => some (matrix 2 4)
  | "mat3x2" => some (matrix 3 2)
  | "mat3x4" => some (matrix 3 4)
  | "mat4x2" => some (matrix 4 2)
  | "mat4x3" => some (matrix 4 3)
  | _ => (Sampler.ofName? word).map fun s => ⟨.sampler s, none⟩

end Ty

/-- The precision of a declaration. -/
inductive Precision where
  | low
  | medium
  | high
deriving DecidableEq, Repr, Inhabited

namespace Precision

def ofKeyword? : String → Option Precision
  | "lowp" => some .low
  | "mediump" => some .medium
  | "highp" => some .high
  | _ => none

def word : Precision → String
  | .low => "lowp"
  | .medium => "mediump"
  | .high => "highp"

end Precision

end GlslEs
