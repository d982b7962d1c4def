import GlslEs.Diagnostic
import GlslEs.Scope

/-!
# Problems of names

What can be wrong with the names of a shader: a name that is used and not declared, or one
that is declared twice.
-/

namespace GlslEs

/-- A problem with a name. -/
inductive NameProblem where
  | undeclaredVariable (name : String)
  | undeclaredFunction (name : String)
  | structTwice (name : String)
  | reservedName (name : String)
  | alreadyVariable (name : String)
  | alreadyFunction (name : String)
  | builtinFunction (name : String)
  | resultDiffers (name : String)
  | functionTwice (name : String)
  | symbolTwice (name : String) (kind : SymbolKind) (loc : Location)
deriving DecidableEq, Repr

namespace NameProblem

def code : NameProblem → Code
  | .undeclaredVariable _ | .undeclaredFunction _ => .undeclaredIdentifier
  | _ => .redefinition

def message : NameProblem → String
  | .undeclaredVariable name => "'" ++ name ++ "' は宣言されていません"
  | .undeclaredFunction name => "関数 '" ++ name ++ "' は宣言されていません"
  | .structTwice name => "構造体 '" ++ name ++ "' は既に定義されています"
  | .reservedName name => "'" ++ name ++ "': gl_ で始まる名前は予約されています"
  | .alreadyVariable name => "'" ++ name ++ "' は既に変数として宣言されています"
  | .alreadyFunction name => "'" ++ name ++ "' は既に関数として宣言されています"
  | .builtinFunction name => "組み込み関数 '" ++ name ++ "' は再定義できません"
  | .resultDiffers name => "関数 '" ++ name ++ "' は戻り値の型だけが異なる多重定義です"
  | .functionTwice name => "関数 '" ++ name ++ "' は既に定義されています"
  | .symbolTwice name kind loc =>
    "'" ++ name ++ "' は既に" ++ kind.label ++ "として " ++ loc.toText ++ " で宣言されています"

end NameProblem

/-- A problem with a name and its place. -/
structure NameFinding where
  problem : NameProblem
  loc : Location
deriving DecidableEq, Repr

namespace NameFinding

def report (f : NameFinding) : Diagnostic :=
  ⟨.error, f.problem.code, f.problem.message, f.loc⟩

end NameFinding

end GlslEs
