import GlslEs.Resolve.Declaration
import GlslEs.Shader.Parser

/-!
# Resolving shaders

Statements open scopes: a block one of its own, a loop one for its head and body together, and
a function one for its parameters and body together.  The body of a loop in braces shares the
scope of the loop; a branch or body without braces has a scope of its own.

* `Shader.resolve`: a shader with all names resolved, and what was found, by place.
* `Shader.parse`: the resolved shader that a source text spells.
-/

namespace GlslEs

namespace Resolve

def loopStart : LoopStart → Resolve LoopStart
  | .absent => return .absent
  | .empty loc => return .empty loc
  | .expr loc e => return .expr loc (← expr e)
  | .decl loc d => return .decl loc (← declaration d)

/-- Resolves the body of a loop, given how the statement itself is resolved: braces share the
scope of the loop. -/
def loopBody (body : Stmt) (act : Resolve Stmt) : Resolve Stmt :=
  if body.isBlock then act else within .block act

mutual

/-- Resolves a statement; `inner` says that braces open no scope of their own. -/
def statement (inner : Bool) : Stmt → Resolve Stmt
  | .expr loc e => return .expr loc (← expr e)
  | .decl loc d => return .decl loc (← declaration d)
  | .block loc body =>
    .block loc <$> if inner then statements body else within .block (statements body)
  | .ifThen loc condition thenBranch => do
    let condition ← expr condition
    .ifThen loc condition <$> within .block (statement true thenBranch)
  | .ifElse loc condition thenBranch elseBranch => do
    let condition ← expr condition
    let thenBranch ← within .block (statement true thenBranch)
    .ifElse loc condition thenBranch <$> within .block (statement true elseBranch)
  | .forLoop loc start condition step body => within .loop do
    let start ← loopStart start
    let condition ← condition.mapM expr
    let step ← step.mapM expr
    .forLoop loc start condition step <$> loopBody body (statement true body)
  | .whileLoop loc condition body => within .loop do
    let condition ← expr condition
    .whileLoop loc condition <$> loopBody body (statement true body)
  | .doWhile loc body condition => within .loop do
    let condition ← expr condition
    let body ← loopBody body (statement true body)
    return .doWhile loc body condition
  | .switch loc selector bodyLoc body => do
    let selector ← expr selector
    return .switch loc selector bodyLoc (← within .block (statements body))
  | .label loc value => return .label loc (← value.mapM expr)
  | .result loc value => return .result loc (← value.mapM expr)
  | .jump loc kind => return .jump loc kind
  | .empty loc => return .empty loc

def statements : List Stmt → Resolve (List Stmt)
  | [] => return []
  | s :: ss => do
    let s ← statement false s
    return s :: (← statements ss)

end

/-- Resolves a function: its parameters and its body share a scope. -/
def function (f : Function) : Resolve Function := do
  let p ← prototype f.prototype true
  within .function do
    for x in p.parameters do
      if let some name := x.name then
        declare ⟨name, .parameter, x.ty, .empty, none, x.loc⟩
    return { f with prototype := p, body := ← statements f.body }

def topLevel : TopLevel → Resolve TopLevel
  | .precision p ty loc => return .precision p ty loc
  | .layout q loc => return .layout q loc
  | .globals d => return .globals (← declaration d)
  | .struct d => return .struct (← structDef d)
  | .block b => return .block (← interfaceBlock b)
  | .prototype p => return .prototype (← prototype p false)
  | .function f => return .function (← function f)

end Resolve

namespace Names

def ofBuiltins (version : Version) (limits : Limits) : Names where
  version := version
  symbols := (Builtin.allVariables limits).foldl (fun t x =>
    if x.availableIn version then
      t.declareBuiltin
        ⟨x.name, .builtin, x.ty, x.qualifiers, x.value?.map ([·]), Location.none⟩
    else t) {}

end Names

namespace Shader

/-- The shader with all names resolved, and what was found wrong with them in the order of
their places. -/
def resolve (s : Shader) (limits : Limits) : Shader × List Diagnostic :=
  let (declarations, r) :=
    (s.declarations.mapM Resolve.topLevel).run { names := .ofBuiltins s.version limits }
  ({ s with declarations }, Diagnostic.sort (r.findings.map NameFinding.report))

def unsupportedVersion (number : Nat) (loc : Location) : Diagnostic :=
  ⟨.error, .unsupportedVersion, "サポートされていないバージョンです: " ++ toString number, loc⟩

/-- The report that ends the reading of a source text. -/
def syntaxReport (e : SyntaxError) : Diagnostic :=
  ⟨.error, .syntaxError, e.problem.message, e.loc⟩

/-- The resolved shader that a source text spells and what was found wrong with its names, or
the report why it spells none. -/
def parse (source : String) (limits : Limits) : Except Diagnostic (Shader × List Diagnostic) := do
  let lexemes ← (Lexer.tokenize source).mapError syntaxReport
  if let ⟨.version number profile, loc⟩ :: _ := lexemes then
    if (Version.ofDirective? number profile).isNone then
      throw (unsupportedVersion number loc)
  let shader ← (ofTokens lexemes).mapError syntaxReport
  return shader.resolve limits

end Shader

end GlslEs
