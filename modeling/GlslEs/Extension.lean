/-!
# Extensions

The extensions of the language that are known, the names they go by in a directive, and which
directives make one usable.
-/

namespace GlslEs

/-- An extension of the language. -/
inductive Extension where
  | oesStandardDerivatives
  | oesEglImageExternal
  | oesEglImageExternalEssl3
  | nvEglStreamConsumerExternal
  | arbTextureRectangle
  | extBlendFuncExtended
  | extDrawBuffers
  | extFragDepth
  | extShaderTextureLod
  | extShaderFramebufferFetch
  | nvShaderFramebufferFetch
  | nvShaderNoperspectiveInterpolation
  | armShaderFramebufferFetch
  | ovrMultiview
  | ovrMultiview2
  | extMultisampledRenderToTexture
  | extYuvTarget
  | extGeometryShader
  | extGpuShader5
  | extShaderNonConstantGlobalInitializers
  | oesTextureStorageMultisample2dArray
  | oesTexture3d
  | angleTextureMultisample
  | angleMultiDraw
  | angleBaseVertexBaseInstance
  | webglVideoTexture
  | appleClipDistance
  | oesTextureCubeMapArray
  | extTextureCubeMapArray
deriving DecidableEq, Repr, Inhabited

namespace Extension

/-- Every extension, in the order of the table. -/
def all : List Extension :=
  [.oesStandardDerivatives, .oesEglImageExternal, .oesEglImageExternalEssl3,
    .nvEglStreamConsumerExternal, .arbTextureRectangle, .extBlendFuncExtended, .extDrawBuffers,
    .extFragDepth, .extShaderTextureLod, .extShaderFramebufferFetch, .nvShaderFramebufferFetch,
    .nvShaderNoperspectiveInterpolation, .armShaderFramebufferFetch, .ovrMultiview, .ovrMultiview2,
    .extMultisampledRenderToTexture, .extYuvTarget, .extGeometryShader, .extGpuShader5,
    .extShaderNonConstantGlobalInitializers, .oesTextureStorageMultisample2dArray, .oesTexture3d,
    .angleTextureMultisample, .angleMultiDraw, .angleBaseVertexBaseInstance, .webglVideoTexture,
    .appleClipDistance, .oesTextureCubeMapArray, .extTextureCubeMapArray]

/-- The name of an extension without the letters that every name starts with. -/
def shortName : Extension → String
  | .oesStandardDerivatives => "OES_standard_derivatives"
  | .oesEglImageExternal => "OES_EGL_image_external"
  | .oesEglImageExternalEssl3 => "OES_EGL_image_external_essl3"
  | .nvEglStreamConsumerExternal => "NV_EGL_stream_consumer_external"
  | .arbTextureRectangle => "ARB_texture_rectangle"
  | .extBlendFuncExtended => "EXT_blend_func_extended"
  | .extDrawBuffers => "EXT_draw_buffers"
  | .extFragDepth => "EXT_frag_depth"
  | .extShaderTextureLod => "EXT_shader_texture_lod"
  | .extShaderFramebufferFetch => "EXT_shader_framebuffer_fetch"
  | .nvShaderFramebufferFetch => "NV_shader_framebuffer_fetch"
  | .nvShaderNoperspectiveInterpolation => "NV_shader_noperspective_interpolation"
  | .armShaderFramebufferFetch => "ARM_shader_framebuffer_fetch"
  | .ovrMultiview => "OVR_multiview"
  | .ovrMultiview2 => "OVR_multiview2"
  | .extMultisampledRenderToTexture => "EXT_multisampled_render_to_texture"
  | .extYuvTarget => "EXT_YUV_target"
  | .extGeometryShader => "EXT_geometry_shader"
  | .extGpuShader5 => "EXT_gpu_shader5"
  | .extShaderNonConstantGlobalInitializers => "EXT_shader_non_constant_global_initializers"
  | .oesTextureStorageMultisample2dArray => "OES_texture_storage_multisample_2d_array"
  | .oesTexture3d => "OES_texture_3D"
  | .angleTextureMultisample => "ANGLE_texture_multisample"
  | .angleMultiDraw => "ANGLE_multi_draw"
  | .angleBaseVertexBaseInstance => "ANGLE_base_vertex_base_instance"
  | .webglVideoTexture => "WEBGL_video_texture"
  | .appleClipDistance => "APPLE_clip_distance"
  | .oesTextureCubeMapArray => "OES_texture_cube_map_array"
  | .extTextureCubeMapArray => "EXT_texture_cube_map_array"

def name (e : Extension) : String := "GL_" ++ e.shortName

/-- The name of the limit that says whether the target has the extension. -/
def limitName (e : Extension) : String := "extension_" ++ e.shortName

def aliases : Extension → List Extension
  | .oesEglImageExternal => [.nvEglStreamConsumerExternal]
  | .ovrMultiview => [.ovrMultiview2]
  | _ => []

def ofName? (name : String) : Option Extension :=
  all.find? (·.name == name)

/-- Whether a directive for the given name makes the extension usable. -/
def servedBy (e : Extension) (directive : String) : Bool :=
  directive == e.name || directive == "all" || e.aliases.any (·.name == directive)

end Extension

end GlslEs
