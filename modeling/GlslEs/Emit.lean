import GlslEs.Mangle
import GlslEs.Minify
import GlslEs.Shader.Writer

/-!
# Output of shaders

The text of a shader, with shorter statements and shorter names if that is asked for.
-/

namespace GlslEs

/-- What can be chosen about the output. -/
structure EmitOptions where
  mangle : Bool := false
  minify : Bool := false
  beautify : Bool := false
deriving DecidableEq, Repr, Inhabited

namespace EmitOptions

def style (o : EmitOptions) : Style := if o.beautify then .beautified else .compact

end EmitOptions

def Shader.emit (s : Shader) (o : EmitOptions) : String :=
  let s := if o.minify then s.minify.value else s
  let s := if o.mangle then s.mangle.1 else s
  s.text o.style

end GlslEs
