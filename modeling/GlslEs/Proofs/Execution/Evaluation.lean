import GlslEs.Proofs.Tree

/-!
# Evaluation over any values

Expressions are evaluated from left to right and pass a store along, whatever the values are and
whatever operators and functions do with them: an `Interpretation` says both.  What has no value has
no result.

* `Interpretation`: values, and what operators, selections and functions do with them.
* `Interpretation.eval`: the value of an expression and the store after it.  An assignment finds
  its target, and reads it where it is joined with an operator, before it evaluates its right side.
* `Interpretation.eval_of_alike`: trees that are spelled alike have the same value.
-/

namespace GlslEs

namespace Execution

/-- A variable: its name and the place of its declaration.  What no function declares has no
place. -/
structure Variable where
  name : String
  declaredAt : Location
deriving DecidableEq

/-- The places where the names in scope are declared. -/
abbrev Bindings := String → Location

/-- The variable that a name stands for. -/
def Bindings.find (ρ : Bindings) (name : String) : Variable := ⟨name, ρ name⟩

@[simp] theorem Bindings.find_mem_map_find {ρ : Bindings} {name : String} {names : List String} :
    ρ.find name ∈ names.map ρ.find ↔ name ∈ names := by
  constructor
  · intro h
    obtain ⟨x, hx, heq⟩ := List.mem_map.mp h
    rwa [← show x = name from congrArg Variable.name heq]
  · exact fun h => List.mem_map_of_mem h

/-- A step from a value to a part of it: a member or components by their name, an item by its
position. -/
inductive Selection (V : Type) where
  | named (name : String)
  | item (position : V)

/-- A part of a variable. -/
structure Spot (V : Type) where
  root : Variable
  path : List (Selection V)

/-- What the variables hold. -/
abbrev Memory (V : Type) := Variable → V

/-- What a function gets for a parameter: a value, and the place it was read from, if any. -/
structure Passed (V : Type) where
  value : V
  place : Option (Spot V)

/-- What a function does.  A simple one depends on its arguments alone and changes nothing but
what they were read from. -/
inductive Routine (V : Type) where
  | simple (run : List V → Option (V × List (Option V)))
  | general (run : List (Passed V) → Memory V → Option (V × Memory V))

namespace Routine

/-- Whether a function is a simple one. -/
def isSimple {V : Type} : Routine V → Bool
  | .simple _ => true
  | .general _ => false

end Routine

/-- Computations that pass a store along. -/
abbrev Action (V α : Type) := StateT (Memory V) Option α

/-- A result that does not depend on the store. -/
def Action.ofOption {V α : Type} (a : Option α) : Action V α := fun σ => a.map (·, σ)

/-- The part of a part. -/
def Spot.select {V : Type} (p : Spot V) (s : Selection V) : Spot V := ⟨p.root, p.path ++ [s]⟩

end Execution

open Execution

/-- Values, and what operators, selections and functions do with them. -/
structure Interpretation (V : Type) where
  literal : Constant → V
  truth? : V → Option Bool
  unary? : UnaryOp → V → Option V
  binary? : BinaryOp → V → V → Option V
  select? : Selection V → V → Option V
  replace? : Selection V → V → V → Option V
  routine : String → Routine V

namespace Interpretation

variable {V : Type} (I : Interpretation V)

/-! ### Places -/

/-- The part of a value at the end of a path. -/
def selectAll? : List (Selection V) → V → Option V
  | [], v => some v
  | s :: path, v => do selectAll? path (← I.select? s v)

/-- A value with the part at the end of a path replaced. -/
def replaceAll? (new : V) : List (Selection V) → V → Option V
  | [], _ => some new
  | s :: path, v => do I.replace? s (← replaceAll? new path (← I.select? s v)) v

/-- What a place holds. -/
def read (p : Spot V) : Action V V := fun σ =>
  (I.selectAll? p.path (σ p.root)).map (·, σ)

/-- Puts a value into a place. -/
def write (p : Spot V) (v : V) : Action V Unit := fun σ =>
  (I.replaceAll? v p.path (σ p.root)).map fun w => ((), fun x => if x = p.root then w else σ x)

/-- Moves what a place holds by one step. -/
def increment (op : UnaryOp) (p : Spot V) : Action V V := do
  let old ← I.read p
  let new ← Action.ofOption (I.unary? op old)
  I.write p new
  return if op.isTrailing then old else new

/-- The target of an assignment, with what it holds where the assignment is joined with an
operator. -/
def target (op : AssignOp) (p : Spot V) : Action V (Spot V × Option V) :=
  match op with
  | .plain => return (p, none)
  | .joined _ => do return (p, some (← I.read p))

/-- Assigns a value to a target. -/
def assign (op : AssignOp) (x : Spot V × Option V) (v : V) : Action V V := do
  let new ← Action.ofOption (match op, x.2 with
    | .joined op, some old => I.binary? (.arith op) old v
    | _, _ => some v)
  I.write x.1 new
  return new

/-! ### Functions -/

/-- What a function gets for an argument: with its place, where the argument names one. -/
def argument (e : Expr) (value : Action V V) (place : Action V (Spot V)) : Action V (Passed V) :=
  if e.rootVariable?.isSome then do
    let p ← place
    return ⟨← I.read p, some p⟩
  else do
    return ⟨← value, none⟩

/-- Writes the value that a function leaves for an argument back to where this was read from. -/
def leave (a : Passed V) (new : Option V) : Action V Unit :=
  match a.place, new with
  | some p, some v => I.write p v
  | _, _ => pure ()

/-- Writes back the values that a function leaves for its arguments. -/
def leaveAll : List (Passed V) → List (Option V) → Action V Unit
  | a :: as, new :: news => do
    I.leave a new
    leaveAll as news
  | _, _ => pure ()

/-- The result of a function. -/
def invoke (name : String) (args : List (Passed V)) : Action V V :=
  match I.routine name with
  | .simple run => do
    let (v, news) ← Action.ofOption (run (args.map (·.value)))
    I.leaveAll args news
    return v
  | .general run => run args

/-! ### Expressions -/

/-- Whether a value counts as true. -/
def test (v : V) : Action V Bool := Action.ofOption (I.truth? v)

mutual

/-- The value of an expression. -/
def eval (ρ : Bindings) : Expr → Action V V
  | .lit _ value => pure (I.literal value)
  | .var _ name => I.read ⟨ρ.find name, []⟩
  | .unary _ op operand =>
    if op.isIncrement then do
      I.increment op (← place ρ operand)
    else do
      Action.ofOption (I.unary? op (← eval ρ operand))
  | .binary _ op left right => do
    let v ← eval ρ left
    match op with
    | .logic .and => if ← I.test v then eval ρ right else return v
    | .logic .or => if ← I.test v then return v else eval ρ right
    | op => Action.ofOption (I.binary? op v (← eval ρ right))
  | .assign _ op target value => do
    let x ← I.target op (← place ρ target)
    I.assign op x (← eval ρ value)
  | .ternary _ condition ifTrue ifFalse => do
    if ← I.test (← eval ρ condition) then eval ρ ifTrue else eval ρ ifFalse
  | .call _ callee args => do
    I.invoke callee.name (← arguments ρ args)
  | .swizzle _ base set components => do
    Action.ofOption (I.select? (.named (set.word components)) (← eval ρ base))
  | .field _ base name => do
    Action.ofOption (I.select? (.named name) (← eval ρ base))
  | .index _ base position => do
    let v ← eval ρ base
    Action.ofOption (I.select? (.item (← eval ρ position)) v)
  | .seq _ exprs => do
    Action.ofOption (← evalAll ρ exprs).getLast?

/-- The place that an expression names. -/
def place (ρ : Bindings) : Expr → Action V (Spot V)
  | .var _ name => return ⟨ρ.find name, []⟩
  | .swizzle _ base set components => do
    return (← place ρ base).select (.named (set.word components))
  | .field _ base name => do
    return (← place ρ base).select (.named name)
  | .index _ base position => do
    let p ← place ρ base
    return p.select (.item (← eval ρ position))
  | _ => Action.ofOption none

/-- The values of several expressions. -/
def evalAll (ρ : Bindings) : List Expr → Action V (List V)
  | [] => return []
  | e :: es => do
    let v ← eval ρ e
    return v :: (← evalAll ρ es)

/-- The arguments of a function. -/
def arguments (ρ : Bindings) : List Expr → Action V (List (Passed V))
  | [] => return []
  | e :: es => do
    let a ← I.argument e (eval ρ e) (place ρ e)
    return a :: (← arguments ρ es)

end

end Interpretation

/-! ### Trees that are spelled alike -/

namespace Expr

mutual

/-- Whether two trees differ in their notes only. -/
def alike : Expr → Expr → Bool
  | .lit _ value, .lit _ value' => value = value'
  | .var _ name, .var _ name' => name = name'
  | .unary _ op operand, .unary _ op' operand' => op = op' && alike operand operand'
  | .binary _ op left right, .binary _ op' left' right' =>
    op = op' && alike left left' && alike right right'
  | .assign _ op target value, .assign _ op' target' value' =>
    op = op' && alike target target' && alike value value'
  | .ternary _ condition ifTrue ifFalse, .ternary _ condition' ifTrue' ifFalse' =>
    alike condition condition' && alike ifTrue ifTrue' && alike ifFalse ifFalse'
  | .call _ callee args, .call _ callee' args' => callee = callee' && alikeAll args args'
  | .swizzle _ base set components, .swizzle _ base' set' components' =>
    alike base base' && set = set' && components = components'
  | .field _ base name, .field _ base' name' => alike base base' && name = name'
  | .index _ base position, .index _ base' position' => alike base base' && alike position position'
  | .seq _ exprs, .seq _ exprs' => alikeAll exprs exprs'
  | _, _ => false

/-- Whether the trees of two lists differ in their notes only. -/
def alikeAll : List Expr → List Expr → Bool
  | [], [] => true
  | e :: es, e' :: es' => alike e e' && alikeAll es es'
  | _, _ => false

end

theorem rootVariable?_of_alike {e e' : Expr} (h : e.alike e' = true) :
    e.rootVariable? = e'.rootVariable? := by
  induction e using Expr.forall_of_children generalizing e' with
  | h e ih =>
    cases e <;> cases e' <;> simp [alike] at h <;> simp only [rootVariable?]
    · rw [h]
    · exact ih _ (by simp [children]) h.1.1
    · exact ih _ (by simp [children]) h.1
    · exact ih _ (by simp [children]) h.1

end Expr

namespace Interpretation

variable {V : Type} (I : Interpretation V)

open GlslEs.Expr

theorem evalAll_of_alikeAll (ρ : Bindings) {es es' : List Expr}
    (h : alikeAll es es' = true)
    (ih : ∀ e ∈ es, ∀ e' : Expr, e.alike e' = true →
      I.eval ρ e = I.eval ρ e' ∧ I.place ρ e = I.place ρ e') :
    I.evalAll ρ es = I.evalAll ρ es' ∧ I.arguments ρ es = I.arguments ρ es' := by
  induction es generalizing es' with
  | nil =>
    cases es' with
    | nil => exact ⟨rfl, rfl⟩
    | cons e' es' => simp [alikeAll] at h
  | cons e es ihs =>
    cases es' with
    | nil => simp [alikeAll] at h
    | cons e' es' =>
      obtain ⟨he, hes⟩ : e.alike e' = true ∧ alikeAll es es' = true := by simpa [alikeAll] using h
      obtain ⟨heval, hplace⟩ := ih e (by simp) e' he
      obtain ⟨hevals, harguments⟩ := ihs hes fun c hc => ih c (by simp [hc])
      constructor
      · rw [evalAll, evalAll, heval, hevals]
      · rw [arguments, arguments, argument, argument, heval, hplace, harguments,
          rootVariable?_of_alike he]

/-- Trees that are spelled alike have the same value and name the same place. -/
theorem eval_of_alike (ρ : Bindings) (e e' : Expr) (h : e.alike e' = true) :
    I.eval ρ e = I.eval ρ e' ∧ I.place ρ e = I.place ρ e' := by
  induction e using Expr.forall_of_children generalizing e' with
  | h e ih =>
    have operand : ∀ {a a' : Expr}, a ∈ e.children → a.alike a' = true →
        I.eval ρ a = I.eval ρ a' ∧ I.place ρ a = I.place ρ a' := fun ha h => ih _ ha _ h
    cases e <;> cases e' <;> simp only [alike, Bool.and_eq_true, decide_eq_true_eq, and_assoc,
      Bool.false_eq_true] at h
    case lit =>
      rw [h]
      exact ⟨rfl, rfl⟩
    case var =>
      rw [h]
      exact ⟨rfl, rfl⟩
    case unary =>
      obtain ⟨rfl, h⟩ := h
      obtain ⟨heval, hplace⟩ := operand (by simp [children]) h
      exact ⟨by rw [eval, eval, heval, hplace], rfl⟩
    case binary =>
      obtain ⟨rfl, hleft, hright⟩ := h
      exact ⟨by rw [eval, eval, (operand (by simp [children]) hleft).1,
        (operand (by simp [children]) hright).1], rfl⟩
    case assign =>
      obtain ⟨rfl, htarget, hvalue⟩ := h
      exact ⟨by rw [eval, eval, (operand (by simp [children]) htarget).2,
        (operand (by simp [children]) hvalue).1], rfl⟩
    case ternary =>
      obtain ⟨hcondition, htrue, hfalse⟩ := h
      exact ⟨by rw [eval, eval, (operand (by simp [children]) hcondition).1,
        (operand (by simp [children]) htrue).1, (operand (by simp [children]) hfalse).1], rfl⟩
    case call =>
      obtain ⟨rfl, hargs⟩ := h
      exact ⟨by rw [eval, eval, (I.evalAll_of_alikeAll ρ hargs ih).2], rfl⟩
    case swizzle =>
      obtain ⟨hbase, rfl, rfl⟩ := h
      obtain ⟨heval, hplace⟩ := operand (by simp [children]) hbase
      exact ⟨by rw [eval, eval, heval], by rw [place, place, hplace]⟩
    case field =>
      obtain ⟨hbase, rfl⟩ := h
      obtain ⟨heval, hplace⟩ := operand (by simp [children]) hbase
      exact ⟨by rw [eval, eval, heval], by rw [place, place, hplace]⟩
    case index =>
      obtain ⟨hbase, hposition⟩ := h
      obtain ⟨heval, hplace⟩ := operand (by simp [children]) hbase
      obtain ⟨hposition, -⟩ := operand (by simp [children]) hposition
      exact ⟨by rw [eval, eval, heval, hposition], by rw [place, place, hplace, hposition]⟩
    case seq => exact ⟨by rw [eval, eval, (I.evalAll_of_alikeAll ρ h ih).1], rfl⟩

end Interpretation

end GlslEs
