import GlslEs.Declaration.Writer
import GlslEs.Stmt

/-!
# Writing statements

The body of a branch or loop is written with braces exactly where the tree has a block, with one
exception: where a branch in front of `else` ends in an `if` without `else`, braces are added, so
that the `else` belongs where it stands in the tree.

`Stmt.text` is the compact text of a statement.
-/

namespace GlslEs

namespace Stmt

/-- Whether a statement ends in an `if` without `else`. -/
def endsWithOpenIf : Stmt → Bool
  | .ifThen .. => true
  | .ifElse _ _ _ elseBranch => endsWithOpenIf elseBranch
  | .forLoop _ _ _ _ body => endsWithOpenIf body
  | .whileLoop _ _ body => endsWithOpenIf body
  | _ => false

/-- Whether a statement starts with `if`. -/
def isIf : Stmt → Bool
  | .ifThen .. | .ifElse .. => true
  | _ => false

def startPieces : LoopStart → List Piece
  | .absent | .empty _ => []
  | .expr _ e => e.pieces Level.sequence
  | .decl _ d => d.pieces

def headPieces (word : String) (e : Expr) : List Piece :=
  [.word word, .space, .tight "("] ++ e.pieces Level.sequence ++ [.tight ")"]

/-- An expression after a blank, if there is one. -/
def spacedPieces (e : Option Expr) : List Piece :=
  (e.map fun e => Piece.space :: e.pieces Level.sequence).getD []

/-- The pieces of a body, given those of the statement itself. -/
def innerPieces (s : Stmt) (ps : List Piece) : List Piece :=
  if s.isBlock then ps else [.indent, .line] ++ ps ++ [.outdent]

/-- What stands in front of a word that follows a body. -/
def afterBody (isBlock : Bool) : Piece := if isBlock then .space else .line

def braced (ps : List Piece) : List Piece := Piece.openBrace ++ ps ++ Piece.closeBrace

mutual

def pieces : Stmt → List Piece
  | .expr _ e => e.pieces Level.sequence ++ [.tight ";"]
  | .decl _ d => d.pieces ++ [.tight ";"]
  | .block _ body => braced (listPieces body)
  | .ifThen _ condition thenBranch =>
    headPieces "if" condition ++ innerPieces thenBranch (pieces thenBranch)
  | .ifElse _ condition thenBranch elseBranch =>
    headPieces "if" condition ++
      (if thenBranch.endsWithOpenIf then
          braced (.line :: pieces thenBranch)
        else innerPieces thenBranch (pieces thenBranch)) ++
      [afterBody (thenBranch.endsWithOpenIf || thenBranch.isBlock), .word "else"] ++
      if elseBranch.isIf then .space :: pieces elseBranch
      else innerPieces elseBranch (pieces elseBranch)
  | .forLoop _ start condition step body =>
    [.word "for", .space, .tight "("] ++ startPieces start ++ [.tight ";"] ++
      spacedPieces condition ++ [.tight ";"] ++ spacedPieces step ++ [.tight ")"] ++
      innerPieces body (pieces body)
  | .whileLoop _ condition body =>
    headPieces "while" condition ++ innerPieces body (pieces body)
  | .doWhile _ body condition =>
    .word "do" :: innerPieces body (pieces body) ++ afterBody body.isBlock ::
      headPieces "while" condition ++ [.tight ";"]
  | .switch _ selector _ body => headPieces "switch" selector ++ braced (listPieces body)
  | .label _ (some e) => [.word "case", .space] ++ e.pieces Level.sequence ++ [.tight ":"]
  | .label _ none => [.word "default", .tight ":"]
  | .result _ value => .word "return" :: spacedPieces value ++ [.tight ";"]
  | .jump _ kind => [.word kind.word, .tight ";"]
  | .empty _ => [.tight ";"]

/-- The pieces of statements, each on a line. -/
def listPieces : List Stmt → List Piece
  | [] => []
  | s :: ss => .line :: pieces s ++ listPieces ss

end

def blockPieces (ss : List Stmt) : List Piece := braced (listPieces ss)

def text (s : Stmt) : String := Piece.render .compact (.line :: s.pieces)

end Stmt

end GlslEs
