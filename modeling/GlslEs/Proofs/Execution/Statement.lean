import GlslEs.Proofs.Execution.Evaluation

/-!
# Running statements

A statement turns a store into another and ends in one of several ways.  Statements follow each
other while each ends normally; a declaration brings names into scope for those after it.  Loops
run at most `fuel` times each; a loop that would run on has no result.

* `Interpretation.exec`: what a statement does.
* `Interpretation.execFrom`: what statements do once some labels have been passed, as in the body of
  a `switch`.
* `Interpretation.execFrom_append`: **statements in two parts run one after the other**.
-/

namespace GlslEs

namespace Execution

/-- How a statement ends. -/
inductive Ending (V : Type) where
  | normal
  | broken
  | continued
  | returned (value : Option V)
  | discarded

/-- The scope once variables have been declared. -/
def Bindings.declare (ρ : Bindings) (ds : List Declarator) : Bindings :=
  ds.foldl (fun ρ d name => if name = d.name then d.loc else ρ name) ρ

/-- The scope after the first part of a loop head. -/
def Bindings.afterStart (ρ : Bindings) : LoopStart → Bindings
  | .decl _ d => ρ.declare d.declarators
  | _ => ρ

/-- The scope after a statement. -/
def Bindings.after (ρ : Bindings) : Stmt → Bindings
  | .decl _ d => ρ.declare d.declarators
  | _ => ρ

/-- The scope after statements. -/
def Bindings.afterAll (ρ : Bindings) (ss : List Stmt) : Bindings := ss.foldl after ρ

/-- Goes on only after a normal end. -/
def Ending.andThen {V : Type} (o : Ending V) (next : Action V (Ending V)) : Action V (Ending V) :=
  match o with
  | .normal => next
  | o => pure o

/-- Goes on with a loop after its body has ended. -/
def Ending.andRepeat {V : Type} (o : Ending V) (next : Action V (Ending V)) : Action V (Ending V) :=
  match o with
  | .normal | .continued => next
  | .broken => pure .normal
  | o => pure o

/-- How a `switch` statement ends when its body does. -/
def Ending.afterSwitch {V : Type} : Ending V → Ending V
  | .broken => .normal
  | o => o

/-- How a jump ends. -/
def Ending.ofJump {V : Type} : Jump → Ending V
  | .breakOut => .broken
  | .continueOn => .continued
  | .discard => .discarded

/-- Runs a body as long as a test holds, at most so often. -/
def repeatWhile {V : Type} (test : Action V Bool) (body : Action V (Ending V)) (step : Action V Unit) :
    Nat → Action V (Ending V)
  | 0 => Action.ofOption none
  | n + 1 => do
    if ← test then
      (← body).andRepeat do
        step
        repeatWhile test body step n
    else return .normal

end Execution

open Execution

namespace Stmt

/-- Whether a statement is a label. -/
def isLabel : Stmt → Bool
  | .label .. => true
  | _ => false

/-- The labels among statements, each with the scope at its place. -/
def labels (ρ : Bindings) : List Stmt → List (Bindings × Option Expr)
  | [] => []
  | .label _ value :: ss => (ρ, value) :: labels ρ ss
  | s :: ss => labels (ρ.after s) ss

end Stmt

namespace Interpretation

variable {V : Type} (I : Interpretation V)

/-- Whether an expression counts as true. -/
def holds (ρ : Bindings) (e : Expr) : Action V Bool := do I.test (← I.eval ρ e)

/-- Gives declared variables their first values.  A variable without one keeps what its place
holds. -/
def declare (ρ : Bindings) : List Declarator → Action V Unit
  | [] => pure ()
  | d :: ds => do
    match d.value with
    | some e => I.write ⟨⟨d.name, d.loc⟩, []⟩ (← I.eval ρ e)
    | none => pure ()
    declare (ρ.declare [d]) ds

/-- Runs the first part of a loop head. -/
def start (ρ : Bindings) : LoopStart → Action V Unit
  | .absent | .empty _ => pure ()
  | .expr _ e => do let _ ← I.eval ρ e
  | .decl _ d => I.declare ρ d.declarators

/-- How many labels have been passed where the body of a `switch` starts: the first label with the
value, or else the one without a value. -/
def entry (v : V) : Nat → List (Bindings × Option Expr) → Action V (Option Nat)
  | _, [] => return none
  | i, (_, none) :: ls => do return (← entry v (i + 1) ls).or (some (i + 1))
  | i, (ρ, some e) :: ls => do
    let w ← I.eval ρ e
    let same ← Action.ofOption (I.binary? (.compare .eq) v w)
    if ← I.test same then return some (i + 1) else entry v (i + 1) ls

variable (fuel : Nat)

mutual

/-- What a statement does. -/
def exec (ρ : Bindings) : Stmt → Action V (Ending V)
  | .expr _ e => do
    let _ ← I.eval ρ e
    return .normal
  | .decl _ d => do
    I.declare ρ d.declarators
    return .normal
  | .block _ body => execFrom 0 ρ body
  | .ifThen _ condition thenBranch => do
    if ← I.holds ρ condition then exec ρ thenBranch else return .normal
  | .ifElse _ condition thenBranch elseBranch => do
    if ← I.holds ρ condition then exec ρ thenBranch else exec ρ elseBranch
  | .forLoop _ start condition step body => do
    I.start ρ start
    let ρ := ρ.afterStart start
    repeatWhile
      (match condition with
        | some e => I.holds ρ e
        | none => return true)
      (exec ρ body)
      (match step with
        | some e => do let _ ← I.eval ρ e
        | none => return ())
      fuel
  | .whileLoop _ condition body => repeatWhile (I.holds ρ condition) (exec ρ body) (pure ()) fuel
  | .doWhile _ body condition => do
    (← exec ρ body).andRepeat (repeatWhile (I.holds ρ condition) (exec ρ body) (pure ()) fuel)
  | .switch _ selector _ body => do
    let v ← I.eval ρ selector
    match ← I.entry v 0 (Stmt.labels ρ body) with
    | some passed => do return (← execFrom passed ρ body).afterSwitch
    | none => return .normal
  | .label .. => return .normal
  | .result _ none => return .returned none
  | .result _ (some e) => do return .returned (some (← I.eval ρ e))
  | .jump _ kind => return .ofJump kind
  | .empty _ => return .normal

/-- What statements do from where so many labels have been passed.  What is skipped still brings
its names into scope. -/
def execFrom (passed : Nat) (ρ : Bindings) : List Stmt → Action V (Ending V)
  | [] => return .normal
  | s :: ss =>
    match passed with
    | 0 => do (← exec ρ s).andThen (execFrom 0 (ρ.after s) ss)
    | n + 1 => execFrom (if s.isLabel then n else n + 1) (ρ.after s) ss

end

/-- What the body of a function does. -/
def run (ρ : Bindings) (ss : List Stmt) : Action V (Ending V) := I.execFrom fuel 0 ρ ss

end Interpretation

/-! ### Statements one after the other -/

namespace Execution

variable {V : Type}

@[simp] theorem andThen_normal (next : Action V (Ending V)) :
    (Ending.normal : Ending V).andThen next = next := rfl

@[simp] theorem andThen_pure_normal (o : Ending V) : o.andThen (pure .normal) = pure o := by
  cases o <;> rfl

theorem andThen_assoc (o : Ending V) (next rest : Action V (Ending V)) :
    (o.andThen next >>= fun o' => o'.andThen rest) =
      o.andThen (next >>= fun o' => o'.andThen rest) := by
  cases o <;> simp [Ending.andThen]

@[simp] theorem Bindings.afterAll_cons (ρ : Bindings) (s : Stmt) (ss : List Stmt) :
    ρ.afterAll (s :: ss) = (ρ.after s).afterAll ss := rfl

theorem Bindings.afterAll_append (ρ : Bindings) (as bs : List Stmt) :
    ρ.afterAll (as ++ bs) = (ρ.afterAll as).afterAll bs := List.foldl_append

end Execution

namespace Stmt

theorem labels_cons (ρ : Bindings) (s : Stmt) (ss : List Stmt) :
    labels ρ (s :: ss) = labels ρ [s] ++ labels (ρ.after s) ss := by
  cases s <;> rfl

theorem labels_append (ρ : Bindings) (as bs : List Stmt) :
    labels ρ (as ++ bs) = labels ρ as ++ labels (ρ.afterAll as) bs := by
  induction as generalizing ρ with
  | nil => rfl
  | cons s as ih =>
    rw [List.cons_append, labels_cons, ih, labels_cons ρ s as, List.append_assoc]
    rfl

theorem length_labels (ρ : Bindings) (ss : List Stmt) :
    (labels ρ ss).length = ss.countP isLabel := by
  induction ss generalizing ρ with
  | nil => rfl
  | cons s ss ih =>
    rw [labels_cons, List.length_append, ih, List.countP_cons, Nat.add_comm]
    cases s <;> rfl

end Stmt

namespace Interpretation

variable {V : Type} (I : Interpretation V) (fuel : Nat)

@[simp] theorem execFrom_nil (k : Nat) (ρ : Bindings) : I.execFrom fuel k ρ [] = pure .normal := by
  rw [execFrom]

@[simp] theorem execFrom_zero_cons (ρ : Bindings) (s : Stmt) (ss : List Stmt) :
    I.execFrom fuel 0 ρ (s :: ss) =
      (do (← I.exec fuel ρ s).andThen (I.execFrom fuel 0 (ρ.after s) ss)) := by
  rw [execFrom]

@[simp] theorem execFrom_succ_cons (k : Nat) (ρ : Bindings) (s : Stmt) (ss : List Stmt) :
    I.execFrom fuel (k + 1) ρ (s :: ss) =
      I.execFrom fuel (if s.isLabel then k else k + 1) (ρ.after s) ss := by
  rw [execFrom]

/-- Statements in two parts run one after the other. -/
theorem execFrom_append (k : Nat) (ρ : Bindings) (as bs : List Stmt) :
    I.execFrom fuel k ρ (as ++ bs) = (do
      (← I.execFrom fuel k ρ as).andThen
        (I.execFrom fuel (k - as.countP Stmt.isLabel) (ρ.afterAll as) bs)) := by
  induction as generalizing k ρ with
  | nil => simp [Bindings.afterAll]
  | cons s as ih =>
    rw [List.cons_append]
    cases k with
    | zero =>
      rw [execFrom_zero_cons, execFrom_zero_cons, ih, bind_assoc]
      simp only [andThen_assoc, Nat.zero_sub, Bindings.afterAll_cons]
    | succ k =>
      rw [execFrom_succ_cons, execFrom_succ_cons, ih, List.countP_cons, Bindings.afterAll_cons]
      congr 1
      funext o
      split
      · congr 2
        omega
      · congr 2

end Interpretation

end GlslEs
