import GlslEs.Check.Problem
import GlslEs.Layout
import GlslEs.Scope

/-!
# What a check knows

Checking goes through a shader in source order.  `Context` holds what is known at one place:
what is fixed for the whole shader, and the constants, loop counters and precision in force
there.  A check gives its findings as a list; only declarations change the context.
-/

namespace GlslEs

/-- What is known at one place of a shader. -/
structure Context where
  stage : Stage
  limits : Limits
  version : Version
  extensions : List ExtensionUse
  functions : List Prototype
  structs : MemberTable
  builtins : List BuiltinVariable
  constants : ConstantScopes := .empty
  counters : List String := []
  result : Ty := .void
  hasFloatPrecision : Bool := false

namespace Context

def ofShader (s : Shader) (stage : Stage) (limits : Limits) : Context where
  stage := stage
  limits := limits
  version := s.version
  extensions := s.extensions
  functions := s.prototypes
  structs := s.memberTable
  builtins := (Builtin.allVariables limits).filter (·.availableIn s.version)

def enter (c : Context) : Context := { c with constants := c.constants.enter }

/-- The context after the declaration of a name, with its value if it is a constant. -/
def declare (c : Context) (name : String) (value : Option (List Constant)) : Context :=
  { c with constants := c.constants.declare name value }

def builtin? (c : Context) (name : String) : Option BuiltinVariable :=
  c.builtins.find? (·.name == name)

/-- The value of a constant: a declared one, else a built-in one. -/
def constant? (c : Context) (name : String) : Option (List Constant) :=
  (ConstantScopes.value? c.constants name).or
    ((c.builtin? name).bind fun x => x.value?.map ([·]))

def eval? (c : Context) (e : Expr) : Option (List Constant) := e.eval? c.constant?

def evalInt? (c : Context) (e : Expr) : Option Int := e.evalInt? c.constant?

/-! ### Findings -/

/-- One finding, under a condition. -/
def findIf (yes : Bool) (problem : Problem) (loc : Location) : List Finding :=
  if yes then [⟨problem, loc⟩] else []

def unsupported (c : Context) (p : VersionProblem) (loc : Location) : Finding :=
  ⟨.version p c.version, loc⟩

/-- A feature of the third generation of the language. -/
def needsEs3 (c : Context) (p : VersionProblem) (loc : Location) : List Finding :=
  findIf (!c.version.isEs3) (.version p c.version) loc

def exceeding (c : Context) (bound : Bound) (n : Int) (amount : Amount) (loc : Location) :
    List Finding :=
  findIf (c.limits.bound bound < n) (.exceeds amount bound (c.limits.bound bound)) loc

/-! ### Extensions -/

/-- Whether the target has the extension with a name. -/
def supportsNamed (c : Context) (name : String) : Bool :=
  (Extension.ofName? name).any c.limits.supports

/-- The directive that decides about an extension: the last one that names it, one of its other
names, or all extensions. -/
def directive? (c : Context) (e : Extension) : Option ExtensionUse :=
  c.extensions.reverse.find? fun use => e.servedBy use.name

/-- Whether the target has an extension and the shader has enabled it. -/
def extensionEnabled (c : Context) (e : Extension) : Bool :=
  c.limits.supports e && (c.directive? e).any (·.behavior.enables)

def needsExtension (c : Context) (e : Extension) (loc : Location) : List Finding :=
  if !c.limits.supports e then [⟨.extensionAbsent e, loc⟩]
  else
    match (c.directive? e).map ExtensionUse.behavior with
    | some .warn => [⟨.extensionUsed e, loc⟩]
    | some .disable => [⟨.extensionNotEnabled e, loc⟩]
    | some _ => []
    | none => [⟨.extensionNotEnabled e, loc⟩]

def checkDirective (c : Context) (use : ExtensionUse) : List Finding :=
  if use.name == "all" then
    match use.behavior with
    | .require | .enable => [⟨.qualifier (.allExtensions use.behavior), use.loc⟩]
    | _ => []
  else if c.supportsNamed use.name then []
  else
    match use.behavior with
    | .require => [⟨.extensionUnknown use.name true, use.loc⟩]
    | .enable | .warn => [⟨.extensionUnknown use.name false, use.loc⟩]
    | .disable => []

/-! ### Types and precisions -/

/-- Whether the first version of the language lacks a type. -/
def isNewType (ty : Ty) : Bool :=
  match ty.base with
  | .value .uint _ => true
  | .value _ (.matrix columns rows) => columns != rows
  | .sampler s =>
    s.component != .float ||
      match s.texture with
      | .volume | .planeArray | .planeShadow | .cubeShadow | .planeArrayShadow
      | .planeMultisample => true
      | _ => false
  | _ => false

def checkType (c : Context) (ty : Ty) (loc : Location) : List Finding :=
  if !c.version.isEs3 && isNewType ty then [c.unsupported (.type ty) loc]
  else
    match Builtin.samplerExtension? ty with
    | none => []
    | some (e, core) =>
      if core.any (·.le c.version) then []
      else
        c.needsExtension
          (if e = .oesEglImageExternal && c.version.isEs3 then .oesEglImageExternalEssl3 else e) loc

def checkPrecision (c : Context) (p : Option Precision) (loc : Location) : List Finding :=
  findIf (p = some .high && c.stage = .fragment && !c.limits.permits .fragmentPrecisionHigh)
    .precisionHigh loc

/-- A declaration with a type and a precision: a fragment shader has no precision for
floating-point types unless one was declared. -/
def checkFloatPrecision (c : Context) (ty : Ty) (p : Option Precision) (loc : Location) :
    List Finding :=
  c.checkPrecision p loc ++
    findIf (c.stage = .fragment && ty.isFloat && p.isNone && !c.hasFloatPrecision)
      .precisionMissing loc

end Context

end GlslEs
