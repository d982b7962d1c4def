/-!
# Shader stages

The stage of the pipeline that a shader is written for, and how it is read off a word or a
file name.
-/

namespace GlslEs

/-- A stage of the graphics pipeline. -/
inductive Stage where
  | vertex
  | fragment
  | compute
deriving DecidableEq, Repr, Inhabited

namespace Stage

def name : Stage → String
  | .vertex => "vertex"
  | .fragment => "fragment"
  | .compute => "compute"

def ofName? : String → Option Stage
  | "vertex" => some .vertex
  | "fragment" => some .fragment
  | "compute" => some .compute
  | _ => none

/-- The stage with a name or with the extension of its files. -/
def ofWord? : String → Option Stage
  | "vertex" => some .vertex
  | "vert" => some .vertex
  | "fragment" => some .fragment
  | "frag" => some .fragment
  | "compute" => some .compute
  | "comp" => some .compute
  | _ => none

/-- The stage that belongs to the extension of a file. -/
def ofExtension? : String → Option Stage
  | "vert" => some .vertex
  | "frag" => some .fragment
  | "comp" => some .compute
  | _ => none

def unknownMessage (word : String) : String :=
  "不明なシェーダステージです: " ++ word

end Stage

end GlslEs
