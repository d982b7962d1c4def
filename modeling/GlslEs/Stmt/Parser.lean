import GlslEs.Declaration.Parser
import GlslEs.Stmt

/-!
# Reading statements

A statement is told by its first token.  A type in front of a name starts a declaration; a
type in front of a parenthesis, also after an array length, is a constructor and starts an
expression.
-/

namespace GlslEs

namespace Cursor

/-- Whether a name follows the first closing bracket, with no semicolon in between. -/
def namedAfterBracket : List Lexeme → Bool
  | [] => false
  | ⟨.punct .rightBracket, _⟩ :: ⟨.identifier _, _⟩ :: _ => true
  | ⟨.punct .rightBracket, _⟩ :: _ => false
  | ⟨.endOfText, _⟩ :: _ => false
  | ⟨.punct .semicolon, _⟩ :: _ => false
  | _ :: rest => namedAfterBracket rest

def atType (c : Cursor) : Bool :=
  match c.peek.token with
  | .typeName _ => true
  | .identifier name => c.structs.contains name
  | _ => false

def atDeclaration (c : Cursor) : Bool :=
  c.peek.token.isQualifier || c.peek.token == .keyword .struct ||
    (c.atType &&
      match c.ahead? 1 with
      | some (.identifier _) => true
      | some (.punct .leftBracket) => namedAfterBracket (c.rest.drop 2)
      | _ => false)

end Cursor

namespace Parse

def localDeclaration : Parse Declaration := do
  let loc ← here
  let qualifiers ← qualifiers
  let spec ← typeSpec
  if spec.struct.isSome && (← check .semicolon) then fail .localStructAlone
  declaration qualifiers spec loc

def parenthesized (opening closing : Expected) : Parse Expr := do
  let _ ← expect .leftParen opening
  let e ← expression (← get).fuel
  let _ ← expect .rightParen closing
  return e

def exprUnless (sign : Punct) : Parse (Option Expr) := do
  if ← check sign then return none
  else some <$> expression (← get).fuel

def jump (loc : Location) (kind : Jump) : Parse Stmt := do
  let _ ← advance
  let _ ← expect .semicolon .jumpEnd
  return .jump loc kind

/-- The first part of a loop head with its semicolon. -/
def loopStart : Parse LoopStart := do
  let loc ← here
  if ← accept .semicolon then
    return .absent
  else if (← get).atDeclaration then
    return .decl loc (← localDeclaration)
  else
    let e ← expression (← get).fuel
    let _ ← expect .semicolon .forFirst
    return .expr loc e

mutual

def statement : Nat → Parse Stmt
  | 0 => fail .tooDeep
  | fuel + 1 => do
    let loc ← here
    match ← token with
    | .punct .leftBrace =>
      let (_, body) ← block fuel
      return .block loc body
    | .punct .semicolon =>
      let _ ← advance
      return .empty loc
    | .keyword .if_ =>
      let _ ← advance
      let condition ← parenthesized .ifOpen .ifClose
      let thenBranch ← statement fuel
      if ← acceptWord .else_ then
        return .ifElse loc condition thenBranch (← statement fuel)
      else
        return .ifThen loc condition thenBranch
    | .keyword .for_ =>
      let _ ← advance
      let _ ← expect .leftParen .forOpen
      let start ← loopStart
      let condition ← exprUnless .semicolon
      let _ ← expect .semicolon .forSecond
      let step ← exprUnless .rightParen
      let _ ← expect .rightParen .forClose
      return .forLoop loc start condition step (← statement fuel)
    | .keyword .while_ =>
      let _ ← advance
      let condition ← parenthesized .whileOpen .whileClose
      return .whileLoop loc condition (← statement fuel)
    | .keyword .do_ =>
      let _ ← advance
      let body ← statement fuel
      let _ ← expectWord .while_ .doWhile
      let condition ← parenthesized .whileOpen .whileClose
      let _ ← expect .semicolon .doEnd
      return .doWhile loc body condition
    | .keyword .switch =>
      let _ ← advance
      let selector ← parenthesized .switchOpen .switchClose
      let (bodyLoc, body) ← block fuel
      return .switch loc selector bodyLoc body
    | .keyword .case_ =>
      let _ ← advance
      let value ← expression (← get).fuel
      let _ ← expect .colon .caseColon
      return .label loc (some value)
    | .keyword .default =>
      let _ ← advance
      let _ ← expect .colon .defaultColon
      return .label loc none
    | .keyword .return_ =>
      let _ ← advance
      let value ← exprUnless .semicolon
      let _ ← expect .semicolon .returnEnd
      return .result loc value
    | .keyword .break_ => jump loc .breakOut
    | .keyword .continue_ => jump loc .continueOn
    | .keyword .discard => jump loc .discard
    | .keyword .precision => fail .localPrecision
    | _ =>
      if (← get).atDeclaration then
        return .decl loc (← localDeclaration)
      else
        let e ← expression (← get).fuel
        let _ ← expect .semicolon .expressionEnd
        return .expr loc e

/-- Statements in braces, with the place of the opening brace. -/
def block : Nat → Parse (Location × List Stmt)
  | 0 => fail .tooDeep
  | fuel + 1 => do
    let loc ← expect .leftBrace .bodyOpen
    return (loc, ← statements fuel)

def statements : Nat → Parse (List Stmt)
  | 0 => fail .tooDeep
  | fuel + 1 => do
    if ← accept .rightBrace then
      return []
    else
      if (← token) == .endOfText then fail .unclosedBlock
      let s ← statement fuel
      return s :: (← statements fuel)

end

end Parse

end GlslEs
