import GlslEs.Shader
import GlslEs.Stmt.Parser
import GlslEs.Token.Lexer

/-!
# Reading shaders

The version directive has to come first; extension directives may stand anywhere and are
collected.  All other tokens form the declarations.

* `Shader.ofTokens`: the shader that a list of tokens spells.
-/

namespace GlslEs

namespace Parse

/-- A default precision, after its first word. -/
def defaultPrecision (loc : Location) : Parse TopLevel := do
  let precision ← match (← advance).token with
    | .precision p => pure p
    | other => failPassed (.needed .precision other)
  let ty ← match (← advance).token with
    | .typeName ty => pure ty
    | other => failPassed (.needed .type other)
  let _ ← expect .semicolon .afterPrecision
  return .precision precision ty loc

def topLevel : Parse TopLevel := do
  let loc ← here
  if ← acceptWord .precision then
    return ← defaultPrecision loc
  let qualifiers ← qualifiers
  if ← accept .semicolon then
    return .layout qualifiers loc
  let c ← get
  if let .identifier name := c.peek.token then
    if !c.structs.contains name && c.ahead? 1 == some (.punct .leftBrace) then
      return .block (← interfaceBlock qualifiers loc)
  let spec ← typeSpec
  if let some d := spec.struct then
    if (← check .semicolon) && qualifiers == {} then
      let _ ← advance
      return .struct d
  let c ← get
  if let .identifier _ := c.peek.token then
    if c.ahead? 1 == some (.punct .leftParen) then
      let p ← prototype qualifiers spec loc
      if ← accept .semicolon then
        return .prototype p
      let (bodyLoc, body) ← block (← get).fuel
      return .function ⟨p, bodyLoc, body⟩
  return .globals (← declaration qualifiers spec loc)

def topLevels : Nat → Parse (List TopLevel)
  | 0 => fail .tooDeep
  | fuel + 1 => do
    if (← token) == .endOfText then
      return []
    else
      let d ← topLevel
      return d :: (← topLevels fuel)

end Parse

namespace Shader

/-- The version that a list of tokens asks for, whether it asks for one, and the tokens behind
the directive. -/
def takeVersion (lexemes : List Lexeme) : Version × Bool × List Lexeme :=
  match lexemes with
  | ⟨.version number profile, _⟩ :: rest =>
    match Version.ofDirective? number profile with
    | some v => (v, true, rest)
    | none => (.es100, false, lexemes)
  | _ => (.es100, false, lexemes)

def firstVersion? (lexemes : List Lexeme) : Option Location :=
  lexemes.findSome? fun
    | ⟨.version .., loc⟩ => some loc
    | _ => none

/-- The extension directives of a list of tokens, and the other tokens. -/
def takeExtensions : List Lexeme → Except SyntaxError (List ExtensionUse × List Lexeme)
  | [] => .ok ([], [])
  | ⟨.extension name word, loc⟩ :: rest => do
    match Behavior.ofWord? word with
    | none => .error ⟨.unknownBehavior word, loc⟩
    | some behavior =>
      let (uses, others) ← takeExtensions rest
      return (⟨name, behavior, loc⟩ :: uses, others)
  | l :: rest => do
    let (uses, others) ← takeExtensions rest
    return (uses, l :: others)

def ofTokens (lexemes : List Lexeme) : Except SyntaxError Shader := do
  let (version, explicitVersion, lexemes) := takeVersion lexemes
  if let some loc := firstVersion? lexemes then
    throw ⟨.misplacedVersion, loc⟩
  let (extensions, lexemes) ← takeExtensions lexemes
  let cursor := Cursor.ofLexemes lexemes
  let (declarations, _) ← (Parse.topLevels cursor.fuel).run cursor
  return { version, explicitVersion, extensions, declarations }

end Shader

end GlslEs
