import GlslEs.Shader
import GlslEs.Stmt.Writer

/-!
# Writing shaders

The text of a whole shader: its directives, each on a line, and its declarations.
-/

namespace GlslEs

/-- The pieces of a declaration at the top of a shader. -/
def TopLevel.pieces : TopLevel → List Piece
  | .precision p ty _ => [.word "precision", .word p.word, .word ty.baseName, .tight ";"]
  | .globals d => d.pieces ++ [.tight ";"]
  | .struct d => d.pieces ++ [.tight ";"]
  | .block b => b.pieces
  | .layout q _ => q.pieces ++ [.tight ";"]
  | .prototype p => p.pieces ++ [.tight ";"]
  | .function f => f.prototype.pieces ++ Stmt.blockPieces f.body

namespace ExtensionUse

def directive (e : ExtensionUse) : String :=
  "#extension " ++ e.name ++ " : " ++ e.behavior.word ++ "\n"

end ExtensionUse

namespace Shader

def pieces (s : Shader) : List Piece :=
  (if s.explicitVersion then [.tight s.version.directive, .tight "\n"] else []) ++
    s.extensions.map (fun e => Piece.tight e.directive) ++
    s.declarations.flatMap fun d => .line :: d.pieces

def text (s : Shader) (style : Style) : String := Piece.render style s.pieces

end Shader

end GlslEs
