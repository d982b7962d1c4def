import GlslEs.Builtin.Signature
import GlslEs.Expr
import GlslEs.Limits

/-!
# Built-in variables

The variables and constants that every shader can use.  The constants carry the values of a
table of limits.
-/

namespace GlslEs

/-- A built-in variable. -/
structure BuiltinVariable where
  name : String
  ty : Ty
  qualifiers : QualifierSet
  writable : Bool
  stage? : Option Stage := none
  since : Version := .es100
  until? : Option Version := none
  extension? : Option Extension := none
  value? : Option Constant := none
deriving Repr, Inhabited

namespace BuiltinVariable

def input (name : String) (ty : Ty) (stage : Stage) (since : Version) (until? : Option Version) :
    BuiltinVariable where
  name := name
  ty := ty
  qualifiers := { QualifierSet.empty with input := true }
  writable := false
  stage? := some stage
  since := since
  until? := until?

def output (name : String) (ty : Ty) (stage : Stage) (since : Version) (until? : Option Version) :
    BuiltinVariable where
  name := name
  ty := ty
  qualifiers := { QualifierSet.empty with output := true }
  writable := true
  stage? := some stage
  since := since
  until? := until?

def bound (limits : Limits) (name : String) (b : Bound) (since : Version) : BuiltinVariable where
  name := name
  ty := .int
  qualifiers := .const
  writable := false
  since := since
  value? := some (.int (Int32.ofInt (limits.bound b)))

def availableIn (x : BuiltinVariable) (v : Version) : Bool :=
  x.since.le v && x.until?.all v.le

end BuiltinVariable

namespace Builtin

def boundConstants : List (String × Bound × Version) :=
  [("gl_MaxVertexAttribs", .maxVertexAttribs, .es100),
    ("gl_MaxVertexUniformVectors", .maxVertexUniformVectors, .es100),
    ("gl_MaxVaryingVectors", .maxVaryingVectors, .es100),
    ("gl_MaxVertexTextureImageUnits", .maxVertexTextureImageUnits, .es100),
    ("gl_MaxCombinedTextureImageUnits", .maxCombinedTextureImageUnits, .es100),
    ("gl_MaxTextureImageUnits", .maxTextureImageUnits, .es100),
    ("gl_MaxFragmentUniformVectors", .maxFragmentUniformVectors, .es100),
    ("gl_MaxDrawBuffers", .maxDrawBuffers, .es100),
    ("gl_MaxVertexOutputVectors", .maxVertexOutputVectors, .es300),
    ("gl_MaxFragmentInputVectors", .maxFragmentInputVectors, .es300),
    ("gl_MinProgramTexelOffset", .minProgramTexelOffset, .es300),
    ("gl_MaxProgramTexelOffset", .maxProgramTexelOffset, .es300),
    ("gl_MaxComputeUniformComponents", .maxComputeUniformComponents, .es310),
    ("gl_MaxComputeTextureImageUnits", .maxComputeTextureImageUnits, .es310),
    ("gl_MaxComputeImageUniforms", .maxComputeImageUniforms, .es310),
    ("gl_MaxComputeAtomicCounters", .maxComputeAtomicCounters, .es310),
    ("gl_MaxComputeAtomicCounterBuffers", .maxComputeAtomicCounterBuffers, .es310),
    ("gl_MaxImageUnits", .maxImageUnits, .es310),
    ("gl_MaxVertexImageUniforms", .maxVertexImageUniforms, .es310),
    ("gl_MaxFragmentImageUniforms", .maxFragmentImageUniforms, .es310),
    ("gl_MaxCombinedImageUniforms", .maxCombinedImageUniforms, .es310),
    ("gl_MaxCombinedShaderOutputResources", .maxCombinedShaderOutputResources, .es310),
    ("gl_MaxVertexAtomicCounters", .maxVertexAtomicCounters, .es310),
    ("gl_MaxFragmentAtomicCounters", .maxFragmentAtomicCounters, .es310),
    ("gl_MaxCombinedAtomicCounters", .maxCombinedAtomicCounters, .es310),
    ("gl_MaxAtomicCounterBindings", .maxAtomicCounterBindings, .es310),
    ("gl_MaxVertexAtomicCounterBuffers", .maxVertexAtomicCounterBuffers, .es310),
    ("gl_MaxFragmentAtomicCounterBuffers", .maxFragmentAtomicCounterBuffers, .es310),
    ("gl_MaxCombinedAtomicCounterBuffers", .maxCombinedAtomicCounterBuffers, .es310),
    ("gl_MaxAtomicCounterBufferSize", .maxAtomicCounterBufferSize, .es310)]

/-- The number of elements of the color arrays: at least one, in 32 bits. -/
def colorCount (limits : Limits) : Nat :=
  (max (limits.bound .maxDrawBuffers) 1).toNat % 0x100000000

def stageVariables (limits : Limits) : List BuiltinVariable :=
  let vec (n : Nat) := Ty.vector .float n
  let uvec3 := Ty.vector .uint 3
  let colors := (vec 4).withArray (some (colorCount limits))
  [.output "gl_Position" (vec 4) .vertex .es100 none,
    .output "gl_PointSize" .float .vertex .es100 none,
    .input "gl_VertexID" .int .vertex .es300 none,
    .input "gl_InstanceID" .int .vertex .es300 none,
    .input "gl_FragCoord" (vec 4) .fragment .es100 none,
    .input "gl_FrontFacing" .bool .fragment .es100 none,
    .input "gl_PointCoord" (vec 2) .fragment .es100 none,
    .output "gl_FragColor" (vec 4) .fragment .es100 (some .es100),
    .output "gl_FragData" colors .fragment .es100 (some .es100),
    { BuiltinVariable.output "gl_FragDepthEXT" .float .fragment .es100 (some .es100) with
      extension? := some .extFragDepth },
    .output "gl_FragDepth" .float .fragment .es300 none,
    { BuiltinVariable.output "gl_SecondaryFragColorEXT" (vec 4) .fragment .es100 (some .es100) with
      extension? := some .extBlendFuncExtended },
    { BuiltinVariable.input "gl_LastFragData" colors .fragment .es100 (some .es100) with
      extension? := some .extShaderFramebufferFetch },
    { BuiltinVariable.input "gl_ViewID_OVR" .uint .vertex .es300 none with
      stage? := none, extension? := some .ovrMultiview },
    .input "gl_NumWorkGroups" uvec3 .compute .es310 none,
    { BuiltinVariable.input "gl_WorkGroupSize" uvec3 .compute .es310 none with
      qualifiers := .const },
    .input "gl_WorkGroupID" uvec3 .compute .es310 none,
    .input "gl_LocalInvocationID" uvec3 .compute .es310 none,
    .input "gl_GlobalInvocationID" uvec3 .compute .es310 none,
    .input "gl_LocalInvocationIndex" .uint .compute .es310 none]

def allVariables (limits : Limits) : List BuiltinVariable :=
  stageVariables limits ++
    boundConstants.map (fun (name, b, since) => .bound limits name b since) ++
    [{ BuiltinVariable.bound limits "gl_MaxDualSourceDrawBuffersEXT" .maxDualSourceDrawBuffers .es100
        with extension? := some .extBlendFuncExtended }]

def constant? (limits : Limits) (name : String) : Option (List Constant) :=
  ((allVariables limits).find? (·.name == name)).bind fun x => x.value?.map ([·])

/-- The extension that a sampler type needs, and the version that has the type without it. -/
def samplerExtension? (ty : Ty) : Option (Extension × Option Version) :=
  match ty.base with
  | .sampler ⟨.external, _⟩ => some (.oesEglImageExternal, none)
  | .sampler ⟨.rectangle, _⟩ => some (.arbTextureRectangle, none)
  | .sampler ⟨.planeMultisample, _⟩ => some (.angleTextureMultisample, some .es310)
  | .sampler ⟨.cubeArray, _⟩ => some (.oesTextureCubeMapArray, none)
  | _ => none

end Builtin

end GlslEs
