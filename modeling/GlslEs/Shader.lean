import GlslEs.Stmt
import GlslEs.Version

/-!
# Shaders

A whole source text once it has been read: the version and the extensions it asks for, and
its declarations in order.
-/

namespace GlslEs

/-- What a shader asks of an extension. -/
inductive Behavior where
  | require
  | enable
  | warn
  | disable
deriving DecidableEq, Repr, Inhabited

namespace Behavior

def ofWord? : String → Option Behavior
  | "require" => some .require
  | "enable" => some .enable
  | "warn" => some .warn
  | "disable" => some .disable
  | _ => none

def word : Behavior → String
  | .require => "require"
  | .enable => "enable"
  | .warn => "warn"
  | .disable => "disable"

def enables : Behavior → Bool
  | .disable => false
  | _ => true

end Behavior

/-- An extension directive. -/
structure ExtensionUse where
  name : String
  behavior : Behavior
  loc : Location
deriving DecidableEq, Repr, Inhabited

/-- A function with its body. -/
structure Function where
  prototype : Prototype
  bodyLoc : Location
  body : List Stmt
deriving Repr, Inhabited

/-- A declaration at the top of a shader. -/
inductive TopLevel where
  | precision (precision : Precision) (ty : Ty) (loc : Location)
  | globals (d : Declaration)
  | struct (d : StructDef)
  | block (b : InterfaceBlock)
  | layout (qualifiers : TypeQualifiers) (loc : Location)
  | prototype (p : Prototype)
  | function (f : Function)
deriving Repr, Inhabited

namespace TopLevel

def loc : TopLevel → Location
  | .precision _ _ loc => loc
  | .globals d => d.loc
  | .struct d => d.loc
  | .block b => b.loc
  | .layout _ loc => loc
  | .prototype p => p.loc
  | .function f => f.prototype.loc

end TopLevel

/-- A shader. -/
structure Shader where
  version : Version
  explicitVersion : Bool
  extensions : List ExtensionUse
  declarations : List TopLevel
deriving Repr, Inhabited

namespace Shader

/-- The functions with a body, in order. -/
def functions (s : Shader) : List Function :=
  s.declarations.filterMap fun
    | .function f => some f
    | _ => none

/-- The height of the highest statement of a function. -/
def depth (s : Shader) : Nat :=
  s.functions.foldl (fun n f => max n (Stmt.depthAll f.body)) 0

end Shader

end GlslEs
