import GlslEs.Expr.Writer
import GlslEs.Logged
import GlslEs.Shader

/-!
# Shortening statements

Statements are joined and branches folded so that less is written:

* expressions that stand as statements are joined with commas, also into the `return` or `if`
  that follows them;
* `if (c) a; else b;` becomes `c ? a : b`, and `if (c) a;` becomes `c && a` for a truth value;
* `c ? x = a : x = b` becomes `x = c ? a : b`;
* braces around the only statement of a branch or loop are dropped.

`Shader.minify` repeats this until nothing changes, at most a fixed number of times.
-/

namespace GlslEs

/-- What was shortened. -/
inductive Shortening where
  | branch
  | assignment
  | commas
  | braces
deriving DecidableEq, Repr

/-- A tree after shortening, with what was done. -/
abbrev Shortened (α : Type) := Logged Shortening α

namespace Minify

/-- Whether values of a type can be joined with commas. -/
def isItemType (ty : Ty) : Bool :=
  !ty.isVoid && !ty.isArray && !ty.isStruct && !ty.isError

/-- The expression of a statement that can be joined with commas. -/
def item? : Stmt → Option Expr
  | .expr _ e => if isItemType e.ty then some e else none
  | _ => none

/-- The only expression of a body, with or without braces. -/
def soleItem? : Stmt → Option Expr
  | .block _ [s] => item? s
  | .block _ _ => none
  | s => item? s

def items : Expr → List Expr
  | .seq _ exprs => exprs
  | e => [e]

def joined (es : List Expr) : Expr :=
  match es with
  | [e] => e
  | _ =>
    let flat := es.flatMap items
    let ty := (flat.getLast?.map Expr.ty).getD .void
    .seq ⟨ty, .empty, (flat.head?.map Expr.loc).getD .none⟩ flat

/-! ### Folding -/

/-- The expression that does what an `if` statement does. -/
def foldIf? : Stmt → Option Stmt
  | .ifElse loc condition thenBranch elseBranch => do
    let ifTrue ← soleItem? thenBranch
    let ifFalse ← soleItem? elseBranch
    if ifTrue.ty = ifFalse.ty then
      some (.expr loc (.ternary ⟨ifTrue.ty, .empty, loc⟩ condition ifTrue ifFalse))
    else none
  | .ifThen loc condition thenBranch => do
    let e ← soleItem? thenBranch
    if e.ty = .bool then
      some (.expr loc (.binary ⟨.bool, .empty, loc⟩ (.logic .and) condition e))
    else none
  | _ => none

/-- The assignment that does what an assignment in either branch does. -/
def hoist? : Stmt → Option Stmt
  | .expr loc (.ternary note condition (.assign first op target value)
      (.assign _ op' target' value')) =>
    if op = op' && value.ty = value'.ty && !target.hasEffects && target.text == target'.text then
      some (.expr loc (.assign { first with loc := note.loc } op target
        (.ternary ⟨value.ty, .empty, note.loc⟩ condition value value')))
    else none
  | _ => none

/-- One step under a name, if it applies. -/
def attempt (what : Shortening) (step : Stmt → Option Stmt) (s : Stmt) : Shortened Stmt :=
  match step s with
  | some s' => .noting what s'
  | none => .quiet s

def folded (s : Stmt) : Shortened Stmt :=
  (attempt .branch foldIf? s).andThen (attempt .assignment hoist?)

/-! ### Joining -/

def flushed (pending : List Expr) : Shortened Stmt :=
  let e := joined pending
  ⟨.expr e.loc e, if 1 < pending.length then [.commas] else []⟩

/-- A statement that takes up the expressions in front of it. -/
def absorb? (pending : List Expr) : Stmt → Option Stmt
  | .result loc (some e) =>
    if isItemType e.ty then some (.result loc (some (joined (pending ++ [e])))) else none
  | .ifThen loc condition thenBranch =>
    some (.ifThen loc (joined (pending ++ [condition])) thenBranch)
  | .ifElse loc condition thenBranch elseBranch =>
    some (.ifElse loc (joined (pending ++ [condition])) thenBranch elseBranch)
  | _ => none

/-- Statements after folding, with expressions that follow each other joined; `pending` are the
expressions right in front. -/
def merge (pending : List Expr) : List Stmt → Shortened (List Stmt)
  | [] =>
    if pending.isEmpty then .quiet [] else (fun s => [s]) <$> flushed pending
  | s :: ss => do
    let s ← folded s
    match item? s with
    | some e => merge (pending ++ [e]) ss
    | none =>
      if pending.isEmpty then (s :: ·) <$> merge [] ss
      else
        match absorb? pending s with
        | some s' =>
          Logged.note .commas
          (s' :: ·) <$> merge [] ss
        | none =>
          let first ← flushed pending
          (fun rest => first :: s :: rest) <$> merge [] ss

/-- A body without braces, if they hold a single statement that needs none. -/
def unbraced : Stmt → Shortened Stmt
  | .block loc [s] =>
    match s with
    | .decl .. | .label .. => .quiet (.block loc [s])
    | _ => .noting .braces s
  | s => .quiet s

mutual

def stmt : Stmt → Shortened Stmt
  | .block loc body => .block loc <$> (stmts body).andThen (merge [])
  | .switch loc selector bodyLoc body =>
    .switch loc selector bodyLoc <$> (stmts body).andThen (merge [])
  | .ifThen loc condition thenBranch =>
    .ifThen loc condition <$> (stmt thenBranch).andThen unbraced
  | .ifElse loc condition thenBranch elseBranch => do
    let thenBranch ← (stmt thenBranch).andThen unbraced
    .ifElse loc condition thenBranch <$> (stmt elseBranch).andThen unbraced
  | .forLoop loc start condition step body =>
    .forLoop loc start condition step <$> (stmt body).andThen unbraced
  | .whileLoop loc condition body =>
    .whileLoop loc condition <$> (stmt body).andThen unbraced
  | .doWhile loc body condition =>
    (fun body => .doWhile loc body condition) <$> (stmt body).andThen unbraced
  | .expr loc e => .quiet (.expr loc e)
  | .decl loc d => .quiet (.decl loc d)
  | .label loc value => .quiet (.label loc value)
  | .result loc value => .quiet (.result loc value)
  | .jump loc kind => .quiet (.jump loc kind)
  | .empty loc => .quiet (.empty loc)

def stmts : List Stmt → Shortened (List Stmt)
  | [] => .quiet []
  | s :: ss => do
    let s ← stmt s
    (s :: ·) <$> stmts ss

end

/-- The body of a function, shortened once. -/
def body (ss : List Stmt) : Shortened (List Stmt) := (stmts ss).andThen (merge [])

/-- A shader, shortened once. -/
def shader (s : Shader) : Shortened Shader := do
  let declarations ← s.declarations.mapM fun
    | .function f => do return .function { f with body := ← body f.body }
    | d => .quiet d
  return { s with declarations }

/-- A shader, shortened until nothing changes, at most so often. -/
def rounds : Nat → Shader → Shortened Shader
  | 0, s => .quiet s
  | n + 1, s =>
    let first := shader s
    if first.log.isEmpty then first else first.andThen (rounds n)

def maxRounds : Nat := 32

end Minify

def Shader.minify (s : Shader) : Shortened Shader := Minify.rounds Minify.maxRounds s

end GlslEs
