import GlslEs.Declaration

/-!
# Statements

A statement carries its place.  A loop's first part is a declaration or an expression; it may
also be missing, or empty once what stood there has been found to do nothing.

* `Stmt.depth`: the height of the tree.
* `Stmt.exprs`: the expressions that stand directly in a statement and below it, in order.
-/

namespace GlslEs

/-- Statements that leave the normal order. -/
inductive Jump where
  | breakOut
  | continueOn
  | discard
deriving DecidableEq, Repr, Inhabited

namespace Jump

def word : Jump → String
  | .breakOut => "break"
  | .continueOn => "continue"
  | .discard => "discard"

end Jump

/-- The first part of a loop head. -/
inductive LoopStart where
  | absent
  | empty (loc : Location)
  | expr (loc : Location) (e : Expr)
  | decl (loc : Location) (d : Declaration)
deriving Repr, Inhabited

/-- A statement. -/
inductive Stmt where
  | expr (loc : Location) (e : Expr)
  | decl (loc : Location) (d : Declaration)
  | block (loc : Location) (body : List Stmt)
  | ifThen (loc : Location) (condition : Expr) (thenBranch : Stmt)
  | ifElse (loc : Location) (condition : Expr) (thenBranch elseBranch : Stmt)
  | forLoop (loc : Location) (start : LoopStart) (condition step : Option Expr) (body : Stmt)
  | whileLoop (loc : Location) (condition : Expr) (body : Stmt)
  | doWhile (loc : Location) (body : Stmt) (condition : Expr)
  | switch (loc : Location) (selector : Expr) (bodyLoc : Location) (body : List Stmt)
  | label (loc : Location) (value : Option Expr)
  | result (loc : Location) (value : Option Expr)
  | jump (loc : Location) (kind : Jump)
  | empty (loc : Location)
deriving Repr, Inhabited

namespace LoopStart

/-- The expressions in the first part of a loop head. -/
def exprs : LoopStart → List Expr
  | .absent | .empty _ => []
  | .expr _ e => [e]
  | .decl _ d => d.values

end LoopStart

namespace Stmt

def loc : Stmt → Location
  | .expr loc _ | .decl loc _ | .block loc _ | .ifThen loc _ _ | .ifElse loc _ _ _
  | .forLoop loc _ _ _ _ | .whileLoop loc _ _ | .doWhile loc _ _ | .switch loc _ _ _
  | .label loc _ | .result loc _ | .jump loc _ | .empty loc => loc

/-- Whether nothing stands in front of the semicolon. -/
def isEmpty : Stmt → Bool
  | .empty _ => true
  | _ => false

def isBlock : Stmt → Bool
  | .block .. => true
  | _ => false

/-- The height of the highest of several expressions. -/
def maxDepth (es : List Expr) : Nat :=
  es.foldl (fun n e => max n e.depth) 0

/-- The height of the first part of a loop head, as a statement. -/
def startDepth : LoopStart → Nat
  | .absent => 0
  | .empty _ => 1
  | .expr _ e => e.depth + 1
  | .decl _ d => maxDepth d.values + 1

mutual

def depth : Stmt → Nat
  | .expr _ e => e.depth + 1
  | .decl _ d => maxDepth d.values + 1
  | .block _ body => depthAll body + 1
  | .ifThen _ condition thenBranch => max condition.depth (depth thenBranch) + 1
  | .ifElse _ condition thenBranch elseBranch =>
    max (max condition.depth (depth thenBranch)) (depth elseBranch) + 1
  | .forLoop _ start condition step body =>
    max (max (max (startDepth start) (maxDepth condition.toList)) (maxDepth step.toList))
      (depth body) + 1
  | .whileLoop _ condition body => max condition.depth (depth body) + 1
  | .doWhile _ body condition => max condition.depth (depth body) + 1
  | .switch _ selector _ body => max selector.depth (depthAll body) + 1
  | .label _ value => maxDepth value.toList + 1
  | .result _ value => maxDepth value.toList + 1
  | .jump .. => 1
  | .empty _ => 1

def depthAll : List Stmt → Nat
  | [] => 0
  | s :: ss => max (depth s) (depthAll ss)

end

mutual

/-- The expressions of a statement and of the statements below it, in source order.  A loop's
condition stands before its body. -/
def exprs : Stmt → List Expr
  | .expr _ e => [e]
  | .decl _ d => d.values
  | .block _ body => exprsAll body
  | .ifThen _ condition thenBranch => condition :: exprs thenBranch
  | .ifElse _ condition thenBranch elseBranch =>
    condition :: (exprs thenBranch ++ exprs elseBranch)
  | .forLoop _ start condition step body =>
    start.exprs ++ condition.toList ++ step.toList ++ exprs body
  | .whileLoop _ condition body => condition :: exprs body
  | .doWhile _ body condition => condition :: exprs body
  | .switch _ selector _ body => selector :: exprsAll body
  | .label _ value => value.toList
  | .result _ value => value.toList
  | .jump .. => []
  | .empty _ => []

def exprsAll : List Stmt → List Expr
  | [] => []
  | s :: ss => exprs s ++ exprsAll ss

end

/-- Every expression node below a statement, in source order. -/
def nodes (s : Stmt) : List Expr :=
  s.exprs.flatMap Expr.nodes

end Stmt

end GlslEs
