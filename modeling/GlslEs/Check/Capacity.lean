import GlslEs.Check.Context

/-!
# Checking capacities

The variables and blocks of a shader use up resources of the target.  Running totals grow in
source order, and a total is compared with its bound after every variable or block that is
counted.  The size of a uniform block and the number of fragment outputs are compared on their
own.

* `Context.loads`: what the declarations of a shader use, in source order.
* `Context.checkLoads`: the totals that exceed their bounds, each at the place of the
  declaration that was counted last.
-/

namespace GlslEs

/-- What running totals count. -/
inductive Resource where
  | samplers
  | uniforms
  | uniformLocations
  | uniformBlocks
  | vertexInputs
  | varyings
  | vertexOutputs
  | fragmentInputs
deriving DecidableEq, Repr, Inhabited

namespace Resource

def bound (stage : Stage) : Resource → Bound
  | .samplers =>
    match stage with
    | .vertex => .maxVertexTextureImageUnits
    | .fragment => .maxTextureImageUnits
    | .compute => .maxComputeTextureImageUnits
  | .uniforms =>
    match stage with
    | .vertex => .maxVertexUniformVectors
    | .fragment => .maxFragmentUniformVectors
    | .compute => .maxComputeUniformComponents
  | .uniformLocations => .maxUniformLocations
  | .uniformBlocks =>
    match stage with
    | .vertex => .maxVertexUniformBlocks
    | .fragment => .maxFragmentUniformBlocks
    | .compute => .maxComputeUniformBlocks
  | .vertexInputs => .maxVertexAttribs
  | .varyings => .maxVaryingVectors
  | .vertexOutputs => .maxVertexOutputVectors
  | .fragmentInputs => .maxFragmentInputVectors

/-- A total in the units of its bound: the uniforms of compute shaders are counted in single
components. -/
def measure (stage : Stage) (r : Resource) (total : Nat) : Nat :=
  if r = .uniforms && stage = .compute then Size.mul total 4 else total

def amount (n : Nat) : Resource → Amount
  | .samplers => .samplers n
  | .uniforms => .uniforms n
  | .uniformLocations => .uniformLocations n
  | .uniformBlocks => .uniformBlocks n
  | .vertexInputs => .vertexInputs n
  | .varyings => .varyings n
  | .vertexOutputs => .vertexOutputs n
  | .fragmentInputs => .fragmentInputs n

end Resource

/-- What a declaration adds to a total, or compares on its own. -/
inductive Load where
  | add (r : Resource) (count : Nat) (loc : Location)
  | blockSize (block : String) (size : Nat) (loc : Location)
  | fragmentOutputs (name : String) (count : Nat) (loc : Location)
deriving DecidableEq, Repr

/-- The running totals. -/
abbrev Totals := Resource → Nat

namespace Totals

def zero : Totals := fun _ => 0

def after (t : Totals) : Load → Totals
  | .add r count _ => fun r' => if r' = r then Size.add (t r) count else t r'
  | _ => t

end Totals

/-- The number of samplers in a type; an array may have no elements. -/
def Ty.samplerCount (ty : Ty) : Nat := if ty.isSampler then ty.array.getD 1 else 0

namespace Context

def uniformLoads (c : Context) (x : Declarator) : List Load :=
  [if 0 < x.ty.samplerCount then .add .samplers x.ty.samplerCount x.loc
    else .add .uniforms (c.structs.slots x.ty) x.loc,
    .add .uniformLocations (c.structs.locations x.ty) x.loc]

def variableLoads (c : Context) (q : TypeQualifiers) (x : Declarator) : List Load :=
  let slots (r : Resource) : Load := .add r (c.structs.slots x.ty) x.loc
  match q.storage, c.stage with
  | some .uniform, _ => c.uniformLoads x
  | some .vertexAttribute, _ => [slots .vertexInputs]
  | some .varying, _ => [slots .varyings]
  | some .input, .vertex => [slots .vertexInputs]
  | some .output, .vertex => [slots .vertexOutputs]
  | some .input, .fragment => [slots .fragmentInputs]
  | some .output, .fragment =>
    let first := (q.layoutValue? "location").getD 0
    [.fragmentOutputs x.name (Size.add first (x.ty.array.getD 1)) x.loc]
  | _, _ => []

/-- What a uniform block uses: an array of blocks counts once for every element. -/
def blockLoads (c : Context) (b : InterfaceBlock) : List Load :=
  if b.qualifiers.storage = some .uniform then
    let count := match b.array with
      | some (.sized e) => ((c.evalInt? e).map fun n => (max n 1).toNat).getD 1
      | _ => 1
    [.add .uniformBlocks count b.loc,
      .blockSize b.name (c.structs.blockSize (b.members.map (·.ty))) b.loc]
  else []

/-- What the declarations of a shader use, in source order. -/
def loads (c : Context) (s : Shader) : List Load :=
  s.declarations.flatMap fun
    | .globals d =>
      (d.declarators.filter (!·.ty.isError)).flatMap (c.variableLoads d.qualifiers)
    | .block b => c.blockLoads b
    | _ => []

/-- A load against its bound, given the totals that include it. -/
def checkLoad (c : Context) (t : Totals) : Load → List Finding
  | .add r _ loc =>
    let n := r.measure c.stage (t r)
    c.exceeding (r.bound c.stage) n (r.amount n) loc
  | .blockSize block size loc => c.exceeding .maxUniformBlockSize size (.blockSize block size) loc
  | .fragmentOutputs name count loc =>
    c.exceeding .maxDrawBuffers count (.fragmentOutputs name count) loc

/-- Everything that exceeds its bound, given the totals so far. -/
def checkLoads (c : Context) (t : Totals) : List Load → List Finding
  | [] => []
  | l :: ls => c.checkLoad (t.after l) l ++ checkLoads c (t.after l) ls

end Context

end GlslEs
