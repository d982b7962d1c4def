import GlslEs.Declaration
import GlslEs.Expr.Parser

/-!
# Reading declarations

Qualifiers, types, array lengths, structures, interface blocks, function heads and the
variables of a declaration.
-/

namespace GlslEs

/-- A type as it stands in front of the declared names. -/
structure TypeSpec where
  ty : Ty
  struct : Option StructDef
  array : Option ArrayLength

namespace Parse

/-! ### Qualifiers -/

def layoutEntry : Parse LayoutEntry := do
  let loc ← here
  let name ← match (← advance).token with
    | .identifier name => pure name
    | .keyword .shared => pure "shared"
    | other => failPassed (.needed .layoutName other)
  if ← accept .equal then
    match (← advance).token with
    | .int n => return ⟨name, some n.toNat, loc⟩
    | .uint n => return ⟨name, some n.toNat, loc⟩
    | other => failPassed (.needed .layoutValue other)
  else
    return ⟨name, none, loc⟩

def layoutList : Parse (List LayoutEntry) := do
  let _ ← expect .leftParen .layoutOpen
  let entries ← commaSeparated layoutEntry (← get).fuel
  let _ ← expect .rightParen .layoutClose
  return entries

/-- The qualifiers in front of a declaration, added to those already read. -/
def qualifiersFrom : Nat → TypeQualifiers → Parse TypeQualifiers
  | 0, _ => fail .tooDeep
  | fuel + 1, q => do
    match ← token with
    | .precision p =>
      let _ ← advance
      qualifiersFrom fuel { q with precision := some p }
    | .keyword word =>
      match Storage.ofKeyword? word with
      | some storage =>
        if q.storage.isSome then fail .repeatedStorage
        else
          let _ ← advance
          qualifiersFrom fuel { q with storage := some storage }
      | none =>
        match word with
        | .layout =>
          let _ ← advance
          let entries ← layoutList
          qualifiersFrom fuel { q with layout := q.layout ++ entries }
        | .invariant =>
          let _ ← advance
          qualifiersFrom fuel { q with invariant := true }
        | .centroid =>
          let _ ← advance
          qualifiersFrom fuel { q with centroid := true }
        | .flat =>
          let _ ← advance
          qualifiersFrom fuel { q with interpolation := some .flat }
        | .smooth =>
          let _ ← advance
          qualifiersFrom fuel { q with interpolation := some .smooth }
        | _ => return q
    | _ => return q

def qualifiers : Parse TypeQualifiers := do
  qualifiersFrom (← get).fuel {}

/-! ### Types -/

/-- The array length in brackets, if brackets stand here. -/
def arrayLength? : Parse (Option ArrayLength) := do
  if ← accept .leftBracket then
    if ← accept .rightBracket then
      return some .unsized
    let length ← conditional (← get).fuel
    let _ ← expect .rightBracket .arrayClose
    if ← check .leftBracket then fail .nestedArray
    return some (.sized length)
  else
    return none

def namedType : Parse Ty := do
  match ← token with
  | .typeName ty =>
    let _ ← advance
    return ty
  | .identifier name =>
    if ← isStruct name then
      let _ ← advance
      return .struct name
    else fail (.missing .type (.identifier name))
  | other => fail (.missing .type other)

/-- The members declared with one type, up to their semicolon. -/
def memberGroup : Parse (List Member) := do
  let layout ← if ← acceptWord .layout then layoutList else pure []
  let precision ← precision?
  if ← checkWord .struct then fail .nestedStruct
  let ty ← namedType
  let array ← arrayLength?
  let member : Parse Member := do
    let loc ← here
    let name ← name .memberName
    let own ← arrayLength?
    return { name, ty, array := own <|> array, layout, precision, loc }
  let members ← commaSeparated member (← get).fuel
  let _ ← expect .semicolon .memberEnd
  return members

def members : Nat → Parse (List Member)
  | 0 => fail .tooDeep
  | fuel + 1 => do
    if ← accept .rightBrace then
      return []
    else
      if (← token) == .endOfText then fail .unclosedMembers
      let group ← memberGroup
      return group ++ (← members fuel)

/-- The definition of a structure; its name is known from its end on. -/
def structDef : Parse StructDef := do
  let loc ← expectWord .struct .structWord
  let name ← name .structName
  let _ ← expect .leftBrace .structOpen
  let members ← members (← get).fuel
  if members.isEmpty then failPassed (.emptyStruct name)
  modify fun c => { c with structs := name :: c.structs }
  return { name, members, loc }

def typeSpec : Parse TypeSpec := do
  if ← checkWord .struct then
    let d ← structDef
    return ⟨.struct d.name, some d, ← arrayLength?⟩
  else
    let ty ← namedType
    return ⟨ty, none, ← arrayLength?⟩

/-! ### Declarations -/

/-- An interface block, from its name to its semicolon. -/
def interfaceBlock (qualifiers : TypeQualifiers) (loc : Location) : Parse InterfaceBlock := do
  match qualifiers.storage with
  | some .uniform | some .buffer | some .input | some .output => pure ()
  | _ => fail .blockStorage
  let blockName ← name .blockName
  let _ ← expect .leftBrace .blockOpen
  let members ← members (← get).fuel
  let (instanceName, array) ← match ← token with
    | .identifier instanceName =>
      let _ ← advance
      pure (some instanceName, ← arrayLength?)
    | _ => pure (none, none)
  let _ ← expect .semicolon .blockEnd
  return { qualifiers, name := blockName, members, instanceName, array, loc }

/-- The direction of a parameter: at most one word, and none means input. -/
def direction : Parse Direction := do
  match ← token with
  | .keyword .in_ =>
    let _ ← advance
    return .input
  | .keyword .out =>
    let _ ← advance
    return .output
  | .keyword .inout =>
    let _ ← advance
    return .inout
  | _ => return .input

def parameter : Parse Parameter := do
  let loc ← here
  let isConst ← acceptWord .const
  let direction ← direction
  let precision ← precision?
  if ← checkWord .struct then fail .structInParameter
  let ty ← namedType
  let array ← arrayLength?
  match ← token with
  | .identifier name =>
    let _ ← advance
    let own ← arrayLength?
    return { name := some name, ty, array := own <|> array, isConst, direction, precision, loc }
  | _ => return { name := none, ty, array, isConst, direction, precision, loc }

/-- The head of a function, from its name to its closing parenthesis. -/
def prototype (qualifiers : TypeQualifiers) (spec : TypeSpec) (loc : Location) :
    Parse Prototype := do
  if qualifiers.storage.isSome || !qualifiers.layout.isEmpty || qualifiers.invariant then
    fail .returnStorage
  if spec.array.isSome then fail .returnArray
  let functionName ← name .functionName
  let _ ← expect .leftParen .functionOpen
  let parameters ←
    if ← atVoidList then
      let _ ← advance
      pure []
    else if ← check .rightParen then
      pure []
    else
      commaSeparated parameter (← get).fuel
  let _ ← expect .rightParen .functionClose
  return { name := functionName, result := spec.ty, precision := qualifiers.precision,
           parameters, loc }

def declarator (spec : TypeSpec) : Parse Declarator := do
  let loc ← here
  let variableName ← name .variableName
  let own ← arrayLength?
  let value ← if ← accept .equal then some <$> assignment (← get).fuel else pure none
  return { name := variableName, ty := spec.ty, array := own <|> spec.array, value, loc }

/-- The variables of a declaration up to its semicolon. -/
def declaration (qualifiers : TypeQualifiers) (spec : TypeSpec) (loc : Location) :
    Parse Declaration := do
  let declarators ← commaSeparated (declarator spec) (← get).fuel
  let _ ← expect .semicolon .declarationEnd
  return { qualifiers, ty := spec.ty, struct := spec.struct, array := spec.array, declarators, loc }

end Parse

end GlslEs
