import GlslEs.Extension
import GlslEs.Number.Double

/-!
# Names of limits

A limit is a bound with an integer value, a permission, the largest point size or the support
of an extension.  `Limit.all` lists them in the order of the table, and every limit has a name
by which a configuration sets it.
-/

namespace GlslEs

/-- A limit whose value is an integer. -/
inductive Bound where
  | maxLights
  | maxClipPlanes
  | maxTextureUnits
  | maxTextureCoords
  | maxVertexAttribs
  | maxVertexUniformComponents
  | maxVaryingFloats
  | maxVertexTextureImageUnits
  | maxCombinedTextureImageUnits
  | maxTextureImageUnits
  | maxFragmentUniformComponents
  | maxDrawBuffers
  | maxVertexUniformVectors
  | maxVaryingVectors
  | maxFragmentUniformVectors
  | maxVertexOutputVectors
  | maxFragmentInputVectors
  | minProgramTexelOffset
  | maxProgramTexelOffset
  | maxClipDistances
  | maxComputeWorkGroupCountX
  | maxComputeWorkGroupCountY
  | maxComputeWorkGroupCountZ
  | maxComputeWorkGroupSizeX
  | maxComputeWorkGroupSizeY
  | maxComputeWorkGroupSizeZ
  | maxComputeUniformComponents
  | maxComputeTextureImageUnits
  | maxComputeImageUniforms
  | maxComputeAtomicCounters
  | maxComputeAtomicCounterBuffers
  | maxVaryingComponents
  | maxVertexOutputComponents
  | maxGeometryInputComponents
  | maxGeometryOutputComponents
  | maxFragmentInputComponents
  | maxImageUnits
  | maxCombinedImageUnitsAndFragmentOutputs
  | maxCombinedShaderOutputResources
  | maxImageSamples
  | maxVertexImageUniforms
  | maxTessControlImageUniforms
  | maxTessEvaluationImageUniforms
  | maxGeometryImageUniforms
  | maxFragmentImageUniforms
  | maxCombinedImageUniforms
  | maxGeometryTextureImageUnits
  | maxGeometryOutputVertices
  | maxGeometryTotalOutputComponents
  | maxGeometryUniformComponents
  | maxGeometryVaryingComponents
  | maxTessControlInputComponents
  | maxTessControlOutputComponents
  | maxTessControlTextureImageUnits
  | maxTessControlUniformComponents
  | maxTessControlTotalOutputComponents
  | maxTessEvaluationInputComponents
  | maxTessEvaluationOutputComponents
  | maxTessEvaluationTextureImageUnits
  | maxTessEvaluationUniformComponents
  | maxTessPatchComponents
  | maxPatchVertices
  | maxTessGenLevel
  | maxViewports
  | maxVertexAtomicCounters
  | maxTessControlAtomicCounters
  | maxTessEvaluationAtomicCounters
  | maxGeometryAtomicCounters
  | maxFragmentAtomicCounters
  | maxCombinedAtomicCounters
  | maxAtomicCounterBindings
  | maxVertexAtomicCounterBuffers
  | maxTessControlAtomicCounterBuffers
  | maxTessEvaluationAtomicCounterBuffers
  | maxGeometryAtomicCounterBuffers
  | maxFragmentAtomicCounterBuffers
  | maxCombinedAtomicCounterBuffers
  | maxAtomicCounterBufferSize
  | maxTransformFeedbackBuffers
  | maxTransformFeedbackInterleavedComponents
  | maxCullDistances
  | maxCombinedClipAndCullDistances
  | maxSamples
  | maxMeshOutputVerticesNv
  | maxMeshOutputPrimitivesNv
  | maxMeshWorkGroupSizeXNv
  | maxMeshWorkGroupSizeYNv
  | maxMeshWorkGroupSizeZNv
  | maxTaskWorkGroupSizeXNv
  | maxTaskWorkGroupSizeYNv
  | maxTaskWorkGroupSizeZNv
  | maxMeshViewCountNv
  | maxDualSourceDrawBuffers
  | maxViewsOvr
  | minProgramTextureGatherOffset
  | maxProgramTextureGatherOffset
  | maxUniformLocations
  | maxUniformBufferBindings
  | maxShaderStorageBufferBindings
  | maxGeometryUniformBlocks
  | maxGeometryShaderStorageBlocks
  | maxGeometryShaderInvocations
  | subPixelBits
  | maxExpressionComplexity
  | maxCallStackDepth
  | maxFunctionParameters
  | maxVertexUniformBlocks
  | maxFragmentUniformBlocks
  | maxComputeUniformBlocks
  | maxUniformBlockSize
deriving DecidableEq, Repr

/-- A limit whose value is a truth value. -/
inductive Permission where
  | nonInductiveForLoops
  | whileLoops
  | doWhileLoops
  | generalUniformIndexing
  | generalAttributeMatrixVectorIndexing
  | generalVaryingIndexing
  | generalSamplerIndexing
  | generalVariableIndexing
  | generalConstantMatrixVectorIndexing
  | fragmentPrecisionHigh
deriving DecidableEq, Repr

/-- A limit. -/
inductive Limit where
  | bound (b : Bound)
  | permission (p : Permission)
  | pointSize
  | support (e : Extension)
deriving DecidableEq, Repr

namespace Bound

/-- The row of a bound in the table of limits: its name and its value as a standard. -/
def row : Bound → String × Int
  | .maxLights => ("maxLights", 32)
  | .maxClipPlanes => ("maxClipPlanes", 6)
  | .maxTextureUnits => ("maxTextureUnits", 32)
  | .maxTextureCoords => ("maxTextureCoords", 32)
  | .maxVertexAttribs => ("maxVertexAttribs", 64)
  | .maxVertexUniformComponents => ("maxVertexUniformComponents", 4096)
  | .maxVaryingFloats => ("maxVaryingFloats", 64)
  | .maxVertexTextureImageUnits => ("maxVertexTextureImageUnits", 32)
  | .maxCombinedTextureImageUnits => ("maxCombinedTextureImageUnits", 80)
  | .maxTextureImageUnits => ("maxTextureImageUnits", 32)
  | .maxFragmentUniformComponents => ("maxFragmentUniformComponents", 4096)
  | .maxDrawBuffers => ("maxDrawBuffers", 64)
  | .maxVertexUniformVectors => ("maxVertexUniformVectors", 1024)
  | .maxVaryingVectors => ("maxVaryingVectors", 8)
  | .maxFragmentUniformVectors => ("maxFragmentUniformVectors", 1024)
  | .maxVertexOutputVectors => ("maxVertexOutputVectors", 64)
  | .maxFragmentInputVectors => ("maxFragmentInputVectors", 64)
  | .minProgramTexelOffset => ("minProgramTexelOffset", -8)
  | .maxProgramTexelOffset => ("maxProgramTexelOffset", 7)
  | .maxClipDistances => ("maxClipDistances", 8)
  | .maxComputeWorkGroupCountX => ("maxComputeWorkGroupCountX", 65535)
  | .maxComputeWorkGroupCountY => ("maxComputeWorkGroupCountY", 65535)
  | .maxComputeWorkGroupCountZ => ("maxComputeWorkGroupCountZ", 65535)
  | .maxComputeWorkGroupSizeX => ("maxComputeWorkGroupSizeX", 1024)
  | .maxComputeWorkGroupSizeY => ("maxComputeWorkGroupSizeY", 1024)
  | .maxComputeWorkGroupSizeZ => ("maxComputeWorkGroupSizeZ", 64)
  | .maxComputeUniformComponents => ("maxComputeUniformComponents", 1024)
  | .maxComputeTextureImageUnits => ("maxComputeTextureImageUnits", 16)
  | .maxComputeImageUniforms => ("maxComputeImageUniforms", 8)
  | .maxComputeAtomicCounters => ("maxComputeAtomicCounters", 8)
  | .maxComputeAtomicCounterBuffers => ("maxComputeAtomicCounterBuffers", 1)
  | .maxVaryingComponents => ("maxVaryingComponents", 60)
  | .maxVertexOutputComponents => ("maxVertexOutputComponents", 64)
  | .maxGeometryInputComponents => ("maxGeometryInputComponents", 64)
  | .maxGeometryOutputComponents => ("maxGeometryOutputComponents", 128)
  | .maxFragmentInputComponents => ("maxFragmentInputComponents", 128)
  | .maxImageUnits => ("maxImageUnits", 8)
  | .maxCombinedImageUnitsAndFragmentOutputs => ("maxCombinedImageUnitsAndFragmentOutputs", 8)
  | .maxCombinedShaderOutputResources => ("maxCombinedShaderOutputResources", 8)
  | .maxImageSamples => ("maxImageSamples", 0)
  | .maxVertexImageUniforms => ("maxVertexImageUniforms", 0)
  | .maxTessControlImageUniforms => ("maxTessControlImageUniforms", 0)
  | .maxTessEvaluationImageUniforms => ("maxTessEvaluationImageUniforms", 0)
  | .maxGeometryImageUniforms => ("maxGeometryImageUniforms", 0)
  | .maxFragmentImageUniforms => ("maxFragmentImageUniforms", 8)
  | .maxCombinedImageUniforms => ("maxCombinedImageUniforms", 8)
  | .maxGeometryTextureImageUnits => ("maxGeometryTextureImageUnits", 16)
  | .maxGeometryOutputVertices => ("maxGeometryOutputVertices", 256)
  | .maxGeometryTotalOutputComponents => ("maxGeometryTotalOutputComponents", 1024)
  | .maxGeometryUniformComponents => ("maxGeometryUniformComponents", 1024)
  | .maxGeometryVaryingComponents => ("maxGeometryVaryingComponents", 64)
  | .maxTessControlInputComponents => ("maxTessControlInputComponents", 128)
  | .maxTessControlOutputComponents => ("maxTessControlOutputComponents", 128)
  | .maxTessControlTextureImageUnits => ("maxTessControlTextureImageUnits", 16)
  | .maxTessControlUniformComponents => ("maxTessControlUniformComponents", 1024)
  | .maxTessControlTotalOutputComponents => ("maxTessControlTotalOutputComponents", 4096)
  | .maxTessEvaluationInputComponents => ("maxTessEvaluationInputComponents", 128)
  | .maxTessEvaluationOutputComponents => ("maxTessEvaluationOutputComponents", 128)
  | .maxTessEvaluationTextureImageUnits => ("maxTessEvaluationTextureImageUnits", 16)
  | .maxTessEvaluationUniformComponents => ("maxTessEvaluationUniformComponents", 1024)
  | .maxTessPatchComponents => ("maxTessPatchComponents", 120)
  | .maxPatchVertices => ("maxPatchVertices", 32)
  | .maxTessGenLevel => ("maxTessGenLevel", 64)
  | .maxViewports => ("maxViewports", 16)
  | .maxVertexAtomicCounters => ("maxVertexAtomicCounters", 0)
  | .maxTessControlAtomicCounters => ("maxTessControlAtomicCounters", 0)
  | .maxTessEvaluationAtomicCounters => ("maxTessEvaluationAtomicCounters", 0)
  | .maxGeometryAtomicCounters => ("maxGeometryAtomicCounters", 0)
  | .maxFragmentAtomicCounters => ("maxFragmentAtomicCounters", 8)
  | .maxCombinedAtomicCounters => ("maxCombinedAtomicCounters", 8)
  | .maxAtomicCounterBindings => ("maxAtomicCounterBindings", 128)
  | .maxVertexAtomicCounterBuffers => ("maxVertexAtomicCounterBuffers", 128)
  | .maxTessControlAtomicCounterBuffers => ("maxTessControlAtomicCounterBuffers", 0)
  | .maxTessEvaluationAtomicCounterBuffers => ("maxTessEvaluationAtomicCounterBuffers", 0)
  | .maxGeometryAtomicCounterBuffers => ("maxGeometryAtomicCounterBuffers", 0)
  | .maxFragmentAtomicCounterBuffers => ("maxFragmentAtomicCounterBuffers", 1)
  | .maxCombinedAtomicCounterBuffers => ("maxCombinedAtomicCounterBuffers", 1)
  | .maxAtomicCounterBufferSize => ("maxAtomicCounterBufferSize", 16384)
  | .maxTransformFeedbackBuffers => ("maxTransformFeedbackBuffers", 4)
  | .maxTransformFeedbackInterleavedComponents => ("maxTransformFeedbackInterleavedComponents", 64)
  | .maxCullDistances => ("maxCullDistances", 8)
  | .maxCombinedClipAndCullDistances => ("maxCombinedClipAndCullDistances", 8)
  | .maxSamples => ("maxSamples", 4)
  | .maxMeshOutputVerticesNv => ("maxMeshOutputVerticesNV", 256)
  | .maxMeshOutputPrimitivesNv => ("maxMeshOutputPrimitivesNV", 512)
  | .maxMeshWorkGroupSizeXNv => ("maxMeshWorkGroupSizeX_NV", 32)
  | .maxMeshWorkGroupSizeYNv => ("maxMeshWorkGroupSizeY_NV", 1)
  | .maxMeshWorkGroupSizeZNv => ("maxMeshWorkGroupSizeZ_NV", 1)
  | .maxTaskWorkGroupSizeXNv => ("maxTaskWorkGroupSizeX_NV", 32)
  | .maxTaskWorkGroupSizeYNv => ("maxTaskWorkGroupSizeY_NV", 1)
  | .maxTaskWorkGroupSizeZNv => ("maxTaskWorkGroupSizeZ_NV", 1)
  | .maxMeshViewCountNv => ("maxMeshViewCountNV", 4)
  | .maxDualSourceDrawBuffers => ("maxDualSourceDrawBuffers", 8)
  | .maxViewsOvr => ("maxViewsOVR", 8)
  | .minProgramTextureGatherOffset => ("minProgramTextureGatherOffset", -16)
  | .maxProgramTextureGatherOffset => ("maxProgramTextureGatherOffset", 15)
  | .maxUniformLocations => ("maxUniformLocations", 16384)
  | .maxUniformBufferBindings => ("maxUniformBufferBindings", 128)
  | .maxShaderStorageBufferBindings => ("maxShaderStorageBufferBindings", 32)
  | .maxGeometryUniformBlocks => ("maxGeometryUniformBlocks", 64)
  | .maxGeometryShaderStorageBlocks => ("maxGeometryShaderStorageBlocks", 32)
  | .maxGeometryShaderInvocations => ("maxGeometryShaderInvocations", 256)
  | .subPixelBits => ("subPixelBits", 8)
  | .maxExpressionComplexity => ("maxExpressionComplexity", 256)
  | .maxCallStackDepth => ("maxCallStackDepth", 256)
  | .maxFunctionParameters => ("maxFunctionParameters", 1024)
  | .maxVertexUniformBlocks => ("maxVertexUniformBlocks", 12)
  | .maxFragmentUniformBlocks => ("maxFragmentUniformBlocks", 12)
  | .maxComputeUniformBlocks => ("maxComputeUniformBlocks", 12)
  | .maxUniformBlockSize => ("maxUniformBlockSize", 16384)

def name (b : Bound) : String := b.row.1

def standard (b : Bound) : Int := b.row.2

end Bound

namespace Permission

def name : Permission → String
  | .nonInductiveForLoops => "limits_nonInductiveForLoops"
  | .whileLoops => "limits_whileLoops"
  | .doWhileLoops => "limits_doWhileLoops"
  | .generalUniformIndexing => "limits_generalUniformIndexing"
  | .generalAttributeMatrixVectorIndexing => "limits_generalAttributeMatrixVectorIndexing"
  | .generalVaryingIndexing => "limits_generalVaryingIndexing"
  | .generalSamplerIndexing => "limits_generalSamplerIndexing"
  | .generalVariableIndexing => "limits_generalVariableIndexing"
  | .generalConstantMatrixVectorIndexing => "limits_generalConstantMatrixVectorIndexing"
  | .fragmentPrecisionHigh => "fragmentPrecisionHigh"

end Permission

namespace Limit

def name : Limit → String
  | .bound b => b.name
  | .permission p => p.name
  | .pointSize => "maxPointSize"
  | .support e => e.limitName

def all : List Limit :=
  [Bound.maxLights, .maxClipPlanes, .maxTextureUnits, .maxTextureCoords, .maxVertexAttribs,
      .maxVertexUniformComponents, .maxVaryingFloats, .maxVertexTextureImageUnits,
      .maxCombinedTextureImageUnits, .maxTextureImageUnits, .maxFragmentUniformComponents,
      .maxDrawBuffers, .maxVertexUniformVectors, .maxVaryingVectors, .maxFragmentUniformVectors,
      .maxVertexOutputVectors, .maxFragmentInputVectors, .minProgramTexelOffset,
      .maxProgramTexelOffset, .maxClipDistances, .maxComputeWorkGroupCountX,
      .maxComputeWorkGroupCountY, .maxComputeWorkGroupCountZ, .maxComputeWorkGroupSizeX,
      .maxComputeWorkGroupSizeY, .maxComputeWorkGroupSizeZ, .maxComputeUniformComponents,
      .maxComputeTextureImageUnits, .maxComputeImageUniforms, .maxComputeAtomicCounters,
      .maxComputeAtomicCounterBuffers, .maxVaryingComponents, .maxVertexOutputComponents,
      .maxGeometryInputComponents, .maxGeometryOutputComponents, .maxFragmentInputComponents,
      .maxImageUnits, .maxCombinedImageUnitsAndFragmentOutputs, .maxCombinedShaderOutputResources,
      .maxImageSamples, .maxVertexImageUniforms, .maxTessControlImageUniforms,
      .maxTessEvaluationImageUniforms, .maxGeometryImageUniforms, .maxFragmentImageUniforms,
      .maxCombinedImageUniforms, .maxGeometryTextureImageUnits, .maxGeometryOutputVertices,
      .maxGeometryTotalOutputComponents, .maxGeometryUniformComponents,
      .maxGeometryVaryingComponents, .maxTessControlInputComponents,
      .maxTessControlOutputComponents, .maxTessControlTextureImageUnits,
      .maxTessControlUniformComponents, .maxTessControlTotalOutputComponents,
      .maxTessEvaluationInputComponents, .maxTessEvaluationOutputComponents,
      .maxTessEvaluationTextureImageUnits, .maxTessEvaluationUniformComponents,
      .maxTessPatchComponents, .maxPatchVertices, .maxTessGenLevel, .maxViewports,
      .maxVertexAtomicCounters, .maxTessControlAtomicCounters, .maxTessEvaluationAtomicCounters,
      .maxGeometryAtomicCounters, .maxFragmentAtomicCounters, .maxCombinedAtomicCounters,
      .maxAtomicCounterBindings, .maxVertexAtomicCounterBuffers,
      .maxTessControlAtomicCounterBuffers, .maxTessEvaluationAtomicCounterBuffers,
      .maxGeometryAtomicCounterBuffers, .maxFragmentAtomicCounterBuffers,
      .maxCombinedAtomicCounterBuffers, .maxAtomicCounterBufferSize, .maxTransformFeedbackBuffers,
      .maxTransformFeedbackInterleavedComponents, .maxCullDistances,
      .maxCombinedClipAndCullDistances, .maxSamples, .maxMeshOutputVerticesNv,
      .maxMeshOutputPrimitivesNv, .maxMeshWorkGroupSizeXNv, .maxMeshWorkGroupSizeYNv,
      .maxMeshWorkGroupSizeZNv, .maxTaskWorkGroupSizeXNv, .maxTaskWorkGroupSizeYNv,
      .maxTaskWorkGroupSizeZNv, .maxMeshViewCountNv].map .bound ++
    [Permission.nonInductiveForLoops, .whileLoops, .doWhileLoops, .generalUniformIndexing,
      .generalAttributeMatrixVectorIndexing, .generalVaryingIndexing, .generalSamplerIndexing,
      .generalVariableIndexing, .generalConstantMatrixVectorIndexing].map .permission ++
    [Bound.maxDualSourceDrawBuffers, .maxViewsOvr, .minProgramTextureGatherOffset,
      .maxProgramTextureGatherOffset, .maxUniformLocations, .maxUniformBufferBindings,
      .maxShaderStorageBufferBindings, .maxGeometryUniformBlocks, .maxGeometryShaderStorageBlocks,
      .maxGeometryShaderInvocations, .subPixelBits].map .bound ++
    [.pointSize] ++
    [Permission.fragmentPrecisionHigh].map .permission ++
    [Bound.maxExpressionComplexity, .maxCallStackDepth, .maxFunctionParameters,
      .maxVertexUniformBlocks, .maxFragmentUniformBlocks, .maxComputeUniformBlocks,
      .maxUniformBlockSize].map .bound ++
    Extension.all.map .support

def ofName? (name : String) : Option Limit :=
  all.find? (·.name == name)

end Limit

end GlslEs
