import GlslEs.Check.Expr

/-!
# Checking declarations

Variables, structures, interface blocks and the heads of functions: whether the version, the
stage and the target have what a declaration asks for, and whether its qualifiers, types and
values fit together.

The values of constants become known as their declarations are passed, so the later variables of
one declaration are checked with the earlier ones known.
-/

namespace GlslEs

namespace Context

/-! ### Layouts -/

def checkLocalSize (c : Context) (q : TypeQualifiers) (loc : Location) (axis : Axis) :
    List Finding :=
  match q.layoutValue? axis.entry with
  | none => []
  | some n =>
    if n < 1 then [⟨.qualifier (.localSize axis), loc⟩]
    else c.exceeding axis.bound n (.localSize axis n) loc

def checkLocalSizes (c : Context) (q : TypeQualifiers) (loc : Location) : List Finding :=
  if !q.layout.any fun e => "local_size_".toList.isPrefixOf e.name.toList then []
  else if c.stage != .compute then [⟨.stage .localSize, loc⟩]
  else [Axis.x, .y, .z].flatMap (c.checkLocalSize q loc)

def checkViews (c : Context) (q : TypeQualifiers) (loc : Location) : List Finding :=
  match q.layoutValue? "num_views" with
  | none => []
  | some n =>
    c.needsExtension .ovrMultiview loc ++
      if c.stage != .vertex then [⟨.stage .views, loc⟩]
      else if n < 1 then [⟨.qualifier .views, loc⟩]
      else c.exceeding .maxViewsOvr n (.views n) loc

def checkLayout (c : Context) (q : TypeQualifiers) (loc : Location) : List Finding :=
  c.checkLocalSizes q loc ++ c.checkViews q loc

/-! ### Storage -/

/-- Whether a variable with this storage is shared with the stage before or after. -/
def isInterface : Storage → Bool
  | .vertexAttribute | .varying | .input | .output => true
  | _ => false

/-- Whether values of the declared type can pass between stages. -/
def isInterfaceType (c : Context) (d : Declaration) (storage : Storage) : Bool :=
  let vertexInput := storage = .vertexAttribute || (storage = .input && c.stage = .vertex)
  let fragmentOutput := storage = .output && c.stage = .fragment
  !(d.ty.isBool || d.ty.isSampler ||
    (d.ty.isStruct && (vertexInput || fragmentOutput || !c.version.isEs3)) ||
    (fragmentOutput && d.ty.isMatrix) ||
    (vertexInput && d.declarators.any (·.ty.isArray)))

/-- The type of a variable that is shared with another stage. -/
def checkInterfaceType (c : Context) (d : Declaration) (storage : Storage) : List Finding :=
  if !isInterface storage || d.ty.isError then []
  else if !c.isInterfaceType d storage then
    [⟨.qualifier (.interfaceType storage d.ty), d.loc⟩]
  else
    let passed := (storage = .output && c.stage = .vertex) ||
      (storage = .input && c.stage = .fragment)
    findIf (passed && d.ty.isInteger && d.qualifiers.interpolation != some .flat)
      (.qualifier (.flatMissing storage)) d.loc

def checkGlobalStorage (c : Context) (storage : Storage) (loc : Location) : List Finding :=
  match storage with
  | .const | .uniform => []
  | .vertexAttribute | .varying =>
    if c.version.isEs3 then [c.unsupported (.storage storage) loc]
    else
      findIf ((storage = .vertexAttribute && c.stage != .vertex) || c.stage = .compute)
        (.stage (.storage storage c.stage)) loc
  | .input | .output =>
    if !c.version.isEs3 then [c.unsupported (.interfaceStorage storage) loc]
    else findIf (c.stage = .compute) (.stage (.computeInterface storage)) loc
  | .inout =>
    if c.stage = .fragment && c.version.isEs3 then c.needsExtension .extShaderFramebufferFetch loc
    else [⟨.qualifier .inoutVariable, loc⟩]
  | .buffer =>
    if !Version.es310.le c.version then [c.unsupported (.storage storage) loc]
    else [⟨.qualifier .bufferVariable, loc⟩]
  | .shared =>
    if !Version.es310.le c.version then [c.unsupported (.storage storage) loc]
    else findIf (c.stage != .compute) (.stage .shared) loc

def checkStorage (c : Context) (d : Declaration) (isGlobal : Bool) : List Finding :=
  (if d.qualifiers.layout.isEmpty then []
    else c.needsEs3 .layout d.loc ++ c.checkLayout d.qualifiers d.loc) ++
  findIf (d.ty.isSampler && d.qualifiers.storage != some .uniform)
    (.qualifier .samplerStorage) d.loc ++
  match d.qualifiers.storage with
  | none => []
  | some storage =>
    if !isGlobal && storage != .const then [⟨.qualifier (.notGlobal storage), d.loc⟩]
    else c.checkGlobalStorage storage d.loc ++ c.checkInterfaceType d storage

/-! ### Variables -/

def checkMembers (c : Context) (ms : List Member) : List Finding :=
  ms.flatMap fun m =>
    findIf (m.ty.isError && m.array.isSome) (.constant (.memberLength m.name)) m.loc ++
      c.checkType m.ty m.loc ++
      findIf m.ty.isSampler (.qualifier (.samplerMember m.name)) m.loc

def checkStartValue (c : Context) (q : TypeQualifiers) (isGlobal : Bool) (x : Declarator)
    (value : Expr) : List Finding :=
  let constant := q.storage = some .const
  c.checkWhole value ++
    findIf (!value.ty.isError && !x.ty.isError && value.ty != x.ty)
      (.type (.startValue x.name x.ty value.ty)) value.loc ++
    findIf (constant && !value.isConst && !value.ty.isError) (.constant (.constValue x.name))
      value.loc ++
    findIf (isGlobal && !value.isConst && q.storage.isNone &&
        !c.extensionEnabled .extShaderNonConstantGlobalInitializers)
      (.constant (.globalValue x.name)) value.loc ++
    match q.storage with
    | some storage => findIf (!constant) (.qualifier (.startValue storage x.name)) value.loc
    | none => []

def checkDeclarator (c : Context) (q : TypeQualifiers) (isGlobal : Bool) (x : Declarator) :
    List Finding :=
  findIf (x.ty.isError && x.array.isSome) (.constant (.arrayLength x.name)) x.loc ++
    (if x.ty.isArray && x.value.isSome then c.needsEs3 .arrayValue x.loc else []) ++
    match x.value with
    | some value => c.checkStartValue q isGlobal x value
    | none => findIf (q.storage = some .const) (.constant (.withoutValue x.name)) x.loc

def afterDeclarator (c : Context) (q : TypeQualifiers) (x : Declarator) : Context :=
  c.declare x.name (if q.storage = some .const then x.value.bind c.eval? else none)

def afterDeclaration (c : Context) (d : Declaration) : Context :=
  d.declarators.foldl (·.afterDeclarator d.qualifiers ·) c

/-- The variables of a declaration, each with those before it known. -/
def checkDeclarators (c : Context) (q : TypeQualifiers) (isGlobal : Bool) :
    List Declarator → List Finding
  | [] => []
  | x :: xs =>
    c.checkDeclarator q isGlobal x ++ (c.afterDeclarator q x).checkDeclarators q isGlobal xs

def checkDeclaration (c : Context) (isGlobal : Bool) (d : Declaration) : List Finding :=
  (d.struct.map fun s => c.checkMembers s.members).getD [] ++
    c.checkStorage d isGlobal ++
    c.checkType d.ty d.loc ++
    c.checkFloatPrecision d.ty d.qualifiers.precision d.loc ++
    c.checkDeclarators d.qualifiers isGlobal d.declarators

/-! ### Blocks and functions -/

def checkBlockStorage (c : Context) (b : InterfaceBlock) : List Finding :=
  match b.qualifiers.storage with
  | some .uniform => []
  | some .buffer =>
    if Version.es310.le c.version then [] else [c.unsupported .bufferBlock b.loc]
  | _ => [⟨.qualifier (.blockStorage b.name), b.loc⟩]

def checkBlock (c : Context) (b : InterfaceBlock) : List Finding :=
  if !c.version.isEs3 then [c.unsupported .interfaceBlock b.loc]
  else c.checkBlockStorage b ++ c.checkMembers b.members

def checkParameter (c : Context) (x : Parameter) : List Finding :=
  findIf (x.ty.isError && x.array.isSome) (.constant .parameterLength) x.loc ++
    c.checkType x.ty x.loc ++ c.checkFloatPrecision x.ty x.precision x.loc

def checkPrototype (c : Context) (p : Prototype) : List Finding :=
  c.checkType p.result p.loc ++
    (if p.result.isVoid then [] else c.checkFloatPrecision p.result p.precision p.loc) ++
    c.exceeding .maxFunctionParameters p.parameters.length
      (.parameters p.name p.parameters.length) p.loc ++
    p.parameters.flatMap c.checkParameter

end Context

end GlslEs
