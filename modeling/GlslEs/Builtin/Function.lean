import GlslEs.Builtin.Signature

/-!
# Built-in functions

The functions that every shader can call, grouped by what they do and by when they are there.
-/

namespace GlslEs.Builtin

/-! ### Words for slots -/

def gen : Slot := .gen .float
def igen : Slot := .gen .int
def ugen : Slot := .gen .uint
def bgen : Slot := .gen .bool
def vec : Slot := .vector .float
def ivec : Slot := .vector .int
def uvec : Slot := .vector .uint
def bvec : Slot := .vector .bool
def mat : Slot := .squareMatrix
def texel : Slot := .texel
def anySampler (t : Texture) : Slot := .anySampler t
def sampler (t : Texture) : Slot := .fixed (.sampler t .float)
def matrix (columns rows : Nat) : Slot := .fixed (.matrix columns rows)
def void : Slot := .fixed .void
def float : Slot := .fixed .float
def int : Slot := .fixed .int
def uint : Slot := .fixed .uint
def bool : Slot := .fixed .bool
def vec2 : Slot := .fixed (.vector .float 2)
def vec3 : Slot := .fixed (.vector .float 3)
def vec4 : Slot := .fixed (.vector .float 4)
def ivec2 : Slot := .fixed (.vector .int 2)
def ivec3 : Slot := .fixed (.vector .int 3)

/-! ### Families of texture functions -/

/-- The functions of the first version, with what they take after the coordinates in the plane and of a cube. -/
def sampled1 (plane projective cube : String) (after afterCube : List Slot) : List Signature :=
  [⟨plane, vec4, [sampler .plane, vec2] ++ after⟩, ⟨projective, vec4, [sampler .plane, vec3] ++ after⟩,
    ⟨projective, vec4, [sampler .plane, vec4] ++ after⟩, ⟨cube, vec4, [sampler .cube, vec3] ++ afterCube⟩]

/-- A function of texture coordinates, with what it takes after them in the plane and in space. -/
def sampled (name : String) (plane volume : List Slot) : List Signature :=
  [⟨name, texel, [anySampler .plane, vec2] ++ plane⟩,
    ⟨name, texel, [anySampler .volume, vec3] ++ volume⟩,
    ⟨name, float, [sampler .planeShadow, vec3] ++ plane⟩,
    ⟨name, texel, [anySampler .planeArray, vec3] ++ plane⟩]

/-- A function of projective coordinates, with what it takes after them. -/
def projected (name : String) (plane volume : List Slot) : List Signature :=
  [⟨name, texel, [anySampler .plane, vec3] ++ plane⟩,
    ⟨name, texel, [anySampler .plane, vec4] ++ plane⟩,
    ⟨name, texel, [anySampler .volume, vec4] ++ volume⟩,
    ⟨name, float, [sampler .planeShadow, vec4] ++ plane⟩]

/-! ### Groups -/

def angles : Group where
  since := .es100
  signatures :=
    [⟨"radians", gen, [gen]⟩, ⟨"degrees", gen, [gen]⟩, ⟨"sin", gen, [gen]⟩, ⟨"cos", gen, [gen]⟩,
      ⟨"tan", gen, [gen]⟩, ⟨"asin", gen, [gen]⟩, ⟨"acos", gen, [gen]⟩, ⟨"atan", gen, [gen, gen]⟩,
      ⟨"atan", gen, [gen]⟩]

def hyperbolics : Group where
  since := .es300
  signatures :=
    [⟨"sinh", gen, [gen]⟩, ⟨"cosh", gen, [gen]⟩, ⟨"tanh", gen, [gen]⟩, ⟨"asinh", gen, [gen]⟩,
      ⟨"acosh", gen, [gen]⟩, ⟨"atanh", gen, [gen]⟩]

def exponentials : Group where
  since := .es100
  signatures :=
    [⟨"pow", gen, [gen, gen]⟩, ⟨"exp", gen, [gen]⟩, ⟨"log", gen, [gen]⟩, ⟨"exp2", gen, [gen]⟩,
      ⟨"log2", gen, [gen]⟩, ⟨"sqrt", gen, [gen]⟩, ⟨"inversesqrt", gen, [gen]⟩]

def commons : Group where
  since := .es100
  signatures :=
    [⟨"abs", gen, [gen]⟩, ⟨"sign", gen, [gen]⟩, ⟨"floor", gen, [gen]⟩, ⟨"ceil", gen, [gen]⟩,
      ⟨"fract", gen, [gen]⟩, ⟨"mod", gen, [gen, float]⟩, ⟨"mod", gen, [gen, gen]⟩,
      ⟨"min", gen, [gen, gen]⟩, ⟨"min", gen, [gen, float]⟩, ⟨"max", gen, [gen, gen]⟩,
      ⟨"max", gen, [gen, float]⟩, ⟨"clamp", gen, [gen, gen, gen]⟩,
      ⟨"clamp", gen, [gen, float, float]⟩, ⟨"mix", gen, [gen, gen, gen]⟩,
      ⟨"mix", gen, [gen, gen, float]⟩, ⟨"step", gen, [gen, gen]⟩, ⟨"step", gen, [float, gen]⟩,
      ⟨"smoothstep", gen, [gen, gen, gen]⟩, ⟨"smoothstep", gen, [float, float, gen]⟩]

def commons3 : Group where
  since := .es300
  signatures :=
    [⟨"abs", igen, [igen]⟩, ⟨"sign", igen, [igen]⟩, ⟨"trunc", gen, [gen]⟩, ⟨"round", gen, [gen]⟩,
      ⟨"roundEven", gen, [gen]⟩, ⟨"modf", gen, [gen, .written gen]⟩, ⟨"min", igen, [igen, igen]⟩,
      ⟨"min", igen, [igen, int]⟩, ⟨"min", ugen, [ugen, ugen]⟩, ⟨"min", ugen, [ugen, uint]⟩,
      ⟨"max", igen, [igen, igen]⟩, ⟨"max", igen, [igen, int]⟩, ⟨"max", ugen, [ugen, ugen]⟩,
      ⟨"max", ugen, [ugen, uint]⟩, ⟨"clamp", igen, [igen, igen, igen]⟩,
      ⟨"clamp", igen, [igen, int, int]⟩, ⟨"clamp", ugen, [ugen, ugen, ugen]⟩,
      ⟨"clamp", ugen, [ugen, uint, uint]⟩, ⟨"mix", gen, [gen, gen, bgen]⟩, ⟨"isnan", bgen, [gen]⟩,
      ⟨"isinf", bgen, [gen]⟩, ⟨"floatBitsToInt", igen, [gen]⟩, ⟨"floatBitsToUint", ugen, [gen]⟩,
      ⟨"intBitsToFloat", gen, [igen]⟩, ⟨"uintBitsToFloat", gen, [ugen]⟩]

def bits : Group where
  since := .es310
  signatures :=
    [⟨"frexp", gen, [gen, .written igen]⟩, ⟨"ldexp", gen, [gen, igen]⟩, ⟨"bitCount", igen, [igen]⟩,
      ⟨"bitCount", igen, [ugen]⟩, ⟨"findLSB", igen, [igen]⟩, ⟨"findLSB", igen, [ugen]⟩,
      ⟨"findMSB", igen, [igen]⟩, ⟨"findMSB", igen, [ugen]⟩, ⟨"bitfieldReverse", igen, [igen]⟩,
      ⟨"bitfieldReverse", ugen, [ugen]⟩]

def packing : Group where
  since := .es300
  signatures :=
    [⟨"packSnorm2x16", uint, [vec2]⟩, ⟨"unpackSnorm2x16", vec2, [uint]⟩,
      ⟨"packUnorm2x16", uint, [vec2]⟩, ⟨"unpackUnorm2x16", vec2, [uint]⟩,
      ⟨"packHalf2x16", uint, [vec2]⟩, ⟨"unpackHalf2x16", vec2, [uint]⟩]

def packing4 : Group where
  since := .es310
  signatures :=
    [⟨"packUnorm4x8", uint, [vec4]⟩, ⟨"packSnorm4x8", uint, [vec4]⟩,
      ⟨"unpackUnorm4x8", vec4, [uint]⟩, ⟨"unpackSnorm4x8", vec4, [uint]⟩]

def geometry : Group where
  since := .es100
  signatures :=
    [⟨"length", float, [gen]⟩, ⟨"distance", float, [gen, gen]⟩, ⟨"dot", float, [gen, gen]⟩,
      ⟨"cross", vec3, [vec3, vec3]⟩, ⟨"normalize", gen, [gen]⟩,
      ⟨"faceforward", gen, [gen, gen, gen]⟩, ⟨"reflect", gen, [gen, gen]⟩,
      ⟨"refract", gen, [gen, gen, float]⟩]

def matrices : Group where
  since := .es100
  signatures :=
    [⟨"matrixCompMult", mat, [mat, mat]⟩]

def matrices3 : Group where
  since := .es300
  signatures :=
    [⟨"matrixCompMult", matrix 2 3, [matrix 2 3, matrix 2 3]⟩,
      ⟨"matrixCompMult", matrix 3 2, [matrix 3 2, matrix 3 2]⟩,
      ⟨"matrixCompMult", matrix 2 4, [matrix 2 4, matrix 2 4]⟩,
      ⟨"matrixCompMult", matrix 4 2, [matrix 4 2, matrix 4 2]⟩,
      ⟨"matrixCompMult", matrix 3 4, [matrix 3 4, matrix 3 4]⟩,
      ⟨"matrixCompMult", matrix 4 3, [matrix 4 3, matrix 4 3]⟩,
      ⟨"outerProduct", matrix 2 2, [vec2, vec2]⟩, ⟨"outerProduct", matrix 3 3, [vec3, vec3]⟩,
      ⟨"outerProduct", matrix 4 4, [vec4, vec4]⟩, ⟨"outerProduct", matrix 2 3, [vec3, vec2]⟩,
      ⟨"outerProduct", matrix 3 2, [vec2, vec3]⟩, ⟨"outerProduct", matrix 2 4, [vec4, vec2]⟩,
      ⟨"outerProduct", matrix 4 2, [vec2, vec4]⟩, ⟨"outerProduct", matrix 3 4, [vec4, vec3]⟩,
      ⟨"outerProduct", matrix 4 3, [vec3, vec4]⟩, ⟨"transpose", mat, [mat]⟩,
      ⟨"transpose", matrix 2 3, [matrix 3 2]⟩, ⟨"transpose", matrix 3 2, [matrix 2 3]⟩,
      ⟨"transpose", matrix 2 4, [matrix 4 2]⟩, ⟨"transpose", matrix 4 2, [matrix 2 4]⟩,
      ⟨"transpose", matrix 3 4, [matrix 4 3]⟩, ⟨"transpose", matrix 4 3, [matrix 3 4]⟩,
      ⟨"determinant", float, [mat]⟩, ⟨"inverse", mat, [mat]⟩]

def comparisons : Group where
  since := .es100
  signatures :=
    [⟨"lessThan", bvec, [vec, vec]⟩, ⟨"lessThan", bvec, [ivec, ivec]⟩,
      ⟨"lessThanEqual", bvec, [vec, vec]⟩, ⟨"lessThanEqual", bvec, [ivec, ivec]⟩,
      ⟨"greaterThan", bvec, [vec, vec]⟩, ⟨"greaterThan", bvec, [ivec, ivec]⟩,
      ⟨"greaterThanEqual", bvec, [vec, vec]⟩, ⟨"greaterThanEqual", bvec, [ivec, ivec]⟩,
      ⟨"equal", bvec, [vec, vec]⟩, ⟨"equal", bvec, [ivec, ivec]⟩, ⟨"equal", bvec, [bvec, bvec]⟩,
      ⟨"notEqual", bvec, [vec, vec]⟩, ⟨"notEqual", bvec, [ivec, ivec]⟩,
      ⟨"notEqual", bvec, [bvec, bvec]⟩, ⟨"any", bool, [bvec]⟩, ⟨"all", bool, [bvec]⟩,
      ⟨"not", bvec, [bvec]⟩]

def comparisons3 : Group where
  since := .es300
  signatures :=
    [⟨"lessThan", bvec, [uvec, uvec]⟩, ⟨"lessThanEqual", bvec, [uvec, uvec]⟩,
      ⟨"greaterThan", bvec, [uvec, uvec]⟩, ⟨"greaterThanEqual", bvec, [uvec, uvec]⟩,
      ⟨"equal", bvec, [uvec, uvec]⟩, ⟨"notEqual", bvec, [uvec, uvec]⟩]

def derivativesExt : Group where
  since := .es100
  until? := some .es100
  stage? := some .fragment
  extension? := some .oesStandardDerivatives
  signatures :=
    [⟨"dFdx", gen, [gen]⟩, ⟨"dFdy", gen, [gen]⟩, ⟨"fwidth", gen, [gen]⟩]

def derivatives : Group where
  since := .es300
  stage? := some .fragment
  signatures :=
    [⟨"dFdx", gen, [gen]⟩, ⟨"dFdy", gen, [gen]⟩, ⟨"fwidth", gen, [gen]⟩]

def textures1 : Group where
  since := .es100
  until? := some .es100
  signatures := sampled1 "texture2D" "texture2DProj" "textureCube" [] []

def textures1Bias : Group where
  since := .es100
  until? := some .es100
  stage? := some .fragment
  signatures := sampled1 "texture2D" "texture2DProj" "textureCube" [float] [float]

/-- Textures with level, in vertex shaders. -/
def textures1Lod : Group where
  since := .es100
  until? := some .es100
  stage? := some .vertex
  signatures := sampled1 "texture2DLod" "texture2DProjLod" "textureCubeLod" [float] [float]

/-- Textures with level or gradient, by extension. -/
def textures1LodExt : Group where
  since := .es100
  until? := some .es100
  stage? := some .fragment
  extension? := some .extShaderTextureLod
  signatures :=
    sampled1 "texture2DLodEXT" "texture2DProjLodEXT" "textureCubeLodEXT" [float] [float] ++
    sampled1 "texture2DGradEXT" "texture2DProjGradEXT" "textureCubeGradEXT" [vec2, vec2] [vec3, vec3]

def textures1External : Group where
  since := .es100
  until? := some .es100
  extension? := some .oesEglImageExternal
  signatures :=
    [⟨"texture2D", vec4, [sampler .external, vec2]⟩,
      ⟨"texture2DProj", vec4, [sampler .external, vec3]⟩,
      ⟨"texture2DProj", vec4, [sampler .external, vec4]⟩]

def textures1Rect : Group where
  since := .es100
  until? := some .es100
  extension? := some .arbTextureRectangle
  signatures :=
    [⟨"texture2DRect", vec4, [sampler .rectangle, vec2]⟩,
      ⟨"texture2DRectProj", vec4, [sampler .rectangle, vec3]⟩,
      ⟨"texture2DRectProj", vec4, [sampler .rectangle, vec4]⟩]

def textures : Group where
  since := .es300
  signatures :=
    [⟨"textureSize", ivec2, [anySampler .plane, int]⟩,
      ⟨"textureSize", ivec3, [anySampler .volume, int]⟩,
      ⟨"textureSize", ivec2, [anySampler .cube, int]⟩,
      ⟨"textureSize", ivec2, [sampler .planeShadow, int]⟩,
      ⟨"textureSize", ivec2, [sampler .cubeShadow, int]⟩,
      ⟨"textureSize", ivec3, [anySampler .planeArray, int]⟩,
      ⟨"textureSize", ivec3, [sampler .planeArrayShadow, int]⟩,
      ⟨"texture", texel, [anySampler .plane, vec2]⟩, ⟨"texture", texel, [anySampler .volume, vec3]⟩,
      ⟨"texture", texel, [anySampler .cube, vec3]⟩,
      ⟨"texture", float, [sampler .planeShadow, vec3]⟩,
      ⟨"texture", float, [sampler .cubeShadow, vec4]⟩,
      ⟨"texture", texel, [anySampler .planeArray, vec3]⟩,
      ⟨"texture", float, [sampler .planeArrayShadow, vec4]⟩] ++
    projected "textureProj" [] [] ++
    [⟨"textureLod", texel, [anySampler .plane, vec2, float]⟩,
      ⟨"textureLod", texel, [anySampler .volume, vec3, float]⟩,
      ⟨"textureLod", texel, [anySampler .cube, vec3, float]⟩,
      ⟨"textureLod", float, [sampler .planeShadow, vec3, float]⟩,
      ⟨"textureLod", texel, [anySampler .planeArray, vec3, float]⟩] ++
    projected "textureProjLod" [float] [float] ++
    [⟨"texelFetch", texel, [anySampler .plane, ivec2, int]⟩,
      ⟨"texelFetch", texel, [anySampler .volume, ivec3, int]⟩,
      ⟨"texelFetch", texel, [anySampler .planeArray, ivec3, int]⟩,
      ⟨"textureGrad", texel, [anySampler .plane, vec2, vec2, vec2]⟩,
      ⟨"textureGrad", texel, [anySampler .volume, vec3, vec3, vec3]⟩,
      ⟨"textureGrad", texel, [anySampler .cube, vec3, vec3, vec3]⟩,
      ⟨"textureGrad", float, [sampler .planeShadow, vec3, vec2, vec2]⟩,
      ⟨"textureGrad", float, [sampler .cubeShadow, vec4, vec3, vec3]⟩,
      ⟨"textureGrad", texel, [anySampler .planeArray, vec3, vec2, vec2]⟩,
      ⟨"textureGrad", float, [sampler .planeArrayShadow, vec4, vec2, vec2]⟩] ++
    projected "textureProjGrad" [vec2, vec2] [vec3, vec3]

def texturesBias : Group where
  since := .es300
  stage? := some .fragment
  signatures :=
    [⟨"texture", texel, [anySampler .plane, vec2, float]⟩,
      ⟨"texture", texel, [anySampler .volume, vec3, float]⟩,
      ⟨"texture", texel, [anySampler .cube, vec3, float]⟩,
      ⟨"texture", float, [sampler .planeShadow, vec3, float]⟩,
      ⟨"texture", float, [sampler .cubeShadow, vec4, float]⟩,
      ⟨"texture", texel, [anySampler .planeArray, vec3, float]⟩] ++
    projected "textureProj" [float] [float]

def texturesOffset : Group where
  since := .es300
  offset? := some .texel
  signatures :=
    sampled "textureOffset" [ivec2] [ivec3] ++
    [⟨"texelFetchOffset", texel, [anySampler .plane, ivec2, int, ivec2]⟩,
      ⟨"texelFetchOffset", texel, [anySampler .volume, ivec3, int, ivec3]⟩,
      ⟨"texelFetchOffset", texel, [anySampler .planeArray, ivec3, int, ivec2]⟩] ++
    projected "textureProjOffset" [ivec2] [ivec3] ++
    sampled "textureLodOffset" [float, ivec2] [float, ivec3] ++
    projected "textureProjLodOffset" [float, ivec2] [float, ivec3] ++
    sampled "textureGradOffset" [vec2, vec2, ivec2] [vec3, vec3, ivec3] ++
    [⟨"textureGradOffset", float, [sampler .planeArrayShadow, vec4, vec2, vec2, ivec2]⟩] ++
    projected "textureProjGradOffset" [vec2, vec2, ivec2] [vec3, vec3, ivec3]

def texturesOffsetBias : Group where
  since := .es300
  stage? := some .fragment
  offset? := some .texel
  signatures :=
    sampled "textureOffset" [ivec2, float] [ivec3, float] ++
    projected "textureProjOffset" [ivec2, float] [ivec3, float]

def texturesExternal : Group where
  since := .es300
  extension? := some .oesEglImageExternalEssl3
  signatures :=
    [⟨"texture", vec4, [sampler .external, vec2]⟩, ⟨"textureProj", vec4, [sampler .external, vec3]⟩,
      ⟨"textureProj", vec4, [sampler .external, vec4]⟩,
      ⟨"textureSize", ivec2, [sampler .external, int]⟩,
      ⟨"texelFetch", vec4, [sampler .external, ivec2, int]⟩]

def textures31 : Group where
  since := .es310
  signatures :=
    [⟨"textureSize", ivec2, [anySampler .planeMultisample]⟩,
      ⟨"texelFetch", texel, [anySampler .planeMultisample, ivec2, int]⟩,
      ⟨"textureGather", texel, [anySampler .plane, vec2]⟩,
      ⟨"textureGather", texel, [anySampler .plane, vec2, int]⟩,
      ⟨"textureGather", texel, [anySampler .planeArray, vec3]⟩,
      ⟨"textureGather", texel, [anySampler .planeArray, vec3, int]⟩,
      ⟨"textureGather", texel, [anySampler .cube, vec3]⟩,
      ⟨"textureGather", texel, [anySampler .cube, vec3, int]⟩,
      ⟨"textureGather", vec4, [sampler .planeShadow, vec2, float]⟩,
      ⟨"textureGather", vec4, [sampler .planeArrayShadow, vec3, float]⟩,
      ⟨"textureGather", vec4, [sampler .cubeShadow, vec3, float]⟩]

def gatherOffset : Group where
  since := .es310
  offset? := some .gather
  signatures :=
    [⟨"textureGatherOffset", texel, [anySampler .plane, vec2, ivec2]⟩,
      ⟨"textureGatherOffset", texel, [anySampler .plane, vec2, ivec2, int]⟩,
      ⟨"textureGatherOffset", texel, [anySampler .planeArray, vec3, ivec2]⟩,
      ⟨"textureGatherOffset", texel, [anySampler .planeArray, vec3, ivec2, int]⟩,
      ⟨"textureGatherOffset", vec4, [sampler .planeShadow, vec2, float, ivec2]⟩,
      ⟨"textureGatherOffset", vec4, [sampler .planeArrayShadow, vec3, float, ivec2]⟩]

def barriers : Group where
  since := .es310
  stage? := some .compute
  signatures :=
    [⟨"barrier", void, []⟩]

def atomics : Group where
  since := .es310
  signatures :=
    [⟨"memoryBarrier", void, []⟩, ⟨"memoryBarrierShared", void, []⟩,
      ⟨"memoryBarrierBuffer", void, []⟩, ⟨"groupMemoryBarrier", void, []⟩] ++
    ["atomicAdd", "atomicMin", "atomicMax", "atomicAnd", "atomicOr", "atomicXor",
      "atomicExchange"].flatMap (fun name =>
        [⟨name, uint, [.written uint, uint]⟩, ⟨name, int, [.written int, int]⟩]) ++
    [⟨"atomicCompSwap", uint, [.written uint, uint, uint]⟩,
      ⟨"atomicCompSwap", int, [.written int, int, int]⟩]

/-- Every group, in the order in which overloads are looked for. -/
def all : List Group :=
  [angles, hyperbolics, exponentials, commons, commons3, bits, packing, packing4, geometry,
    matrices, matrices3, comparisons, comparisons3, derivativesExt, derivatives, textures1,
    textures1Bias, textures1Lod, textures1LodExt, textures1External, textures1Rect, textures,
    texturesBias, texturesOffset, texturesOffsetBias, texturesExternal, textures31, gatherOffset,
    barriers, atomics]

/-! ### Looking up -/

def isFunction (name : String) : Bool :=
  all.any fun g => g.signatures.any (·.name == name)

def overloads (name : String) : List BuiltinFunction :=
  all.flatMap fun g => (g.signatures.filter (·.name == name)).flatMap g.expand

/-- The functions with a name that take arguments of the given types. -/
def matching (name : String) (args : List Ty) : List BuiltinFunction :=
  (overloads name).filter (·.accepts args)

end GlslEs.Builtin
