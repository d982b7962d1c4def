/-!
# Language versions

The three versions of the shading language that a shader can ask for.
-/

namespace GlslEs

/-- A version of the shading language. -/
inductive Version where
  | es100
  | es300
  | es310
deriving DecidableEq, Repr, Inhabited

namespace Version

def ofDirective? (number : Nat) (profile : Option String) : Option Version :=
  match number, profile with
  | 100, none => some .es100
  | 100, some "es" => some .es100
  | 300, some "es" => some .es300
  | 310, some "es" => some .es310
  | _, _ => none

def number : Version → Nat
  | .es100 => 100
  | .es300 => 300
  | .es310 => 310

/-- Whether the version belongs to the third generation. -/
def isEs3 (v : Version) : Bool :=
  300 ≤ v.number

def directive : Version → String
  | .es100 => "#version 100"
  | .es300 => "#version 300 es"
  | .es310 => "#version 310 es"

def name : Version → String
  | .es100 => "GLSL ES 1.00"
  | .es300 => "GLSL ES 3.00"
  | .es310 => "GLSL ES 3.10"

def le (v w : Version) : Bool :=
  v.number ≤ w.number

end Version

end GlslEs
