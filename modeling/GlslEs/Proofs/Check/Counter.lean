import GlslEs.Proofs.Check.Typed

/-!
# Counters of loops

A loop counts if nothing in its body is seen to change the variable of its head.  Seen are
assignments, increments, and calls of users' functions, where the first head that fits the arguments
decides which of them are outputs.  Calls of built-in functions are not looked at, and neither are
array lengths.

* `Expr.writesTo`: whether an expression writes to a variable, through any function.
* `Expr.writesTo_eq`: what is seen of that, and what is not.
* `loopCounter_unwritten_iff`: **nothing in the body of a loop that counts writes to the counter, up
  to what is not seen**.
* `Shader.exists_written_counter`: all that is not seen does happen.
-/

namespace GlslEs

/-! ### Outputs -/

/-- Which arguments a user's function may change. -/
def Prototype.outputs (p : Prototype) : List Bool := p.parameters.map (·.direction.writes)

/-- Which arguments a built-in function may change. -/
def BuiltinFunction.outputs (f : BuiltinFunction) : List Bool := f.parameters.map (·.isOutput)

/-- Whether a function has a name and takes arguments of the given types. -/
def Prototype.fits (p : Prototype) (name : String) (types : List Ty) : Bool :=
  p.name == name && p.parameterTypes == types

/-- The heads of functions behind the first one that fits a call. -/
def laterHeads (functions : List Prototype) (name : String) (types : List Ty) : List Prototype :=
  (functions.dropWhile (!·.fits name types)).tail

namespace Expr

/-- Whether one of the arguments that a function may change is a part of a variable. -/
def givenAsOutput (name : String) (args : List Expr) (outputs : List Bool) : Bool :=
  (args.zip outputs).any fun (a, isOutput) => isOutput && a.isPartOf name

/-- Whether the outermost operation gives a variable to one of the users' functions that fit, for an
output. -/
def writesByUser (functions : List Prototype) (name : String) (f : String) (args : List Expr) : Bool :=
  functions.any fun p => p.fits f (args.map ty) && givenAsOutput name args p.outputs

/-- Whether the outermost operation gives a variable to a built-in function for an output. -/
def writesByBuiltin (version : Version) (name : String) : Expr → Bool
  | .call _ (.builtin f) args =>
    (Builtin.chosen? version f (args.map ty)).any fun g => givenAsOutput name args g.outputs
  | _ => false

/-- Whether the outermost operation gives a variable to a user's function for an output that the first
head that fits does not have. -/
def writesByLaterHead (functions : List Prototype) (name : String) : Expr → Bool
  | .call _ (.user f) args => writesByUser (laterHeads functions f (args.map ty)) name f args
  | _ => false

/-- Whether the outermost operation of an expression writes to a variable or to a part of it. -/
def writesTo (version : Version) (functions : List Prototype) (name : String) : Expr → Bool
  | .assign _ _ target _ => target.isPartOf name
  | .unary _ op operand => op.isIncrement && operand.isPartOf name
  | .call _ (.user f) args => writesByUser functions name f args
  | .call note (.builtin f) args => writesByBuiltin version name (.call note (.builtin f) args)
  | _ => false

variable {version : Version} {functions : List Prototype} {name : String}

theorem any_outputArguments (f : String) (args : List Expr) :
    (outputArguments functions f args).any (·.isPartOf name) =
      (functions.find? (·.fits f (args.map ty))).any fun p => givenAsOutput name args p.outputs := by
  have hfits : (fun p : Prototype => p.name == f && p.parameterTypes == args.map ty) =
      (·.fits f (args.map ty)) := rfl
  rw [outputArguments, hfits]
  split
  · rename_i p hp
    rw [hp]
    simp only [Option.any_some, givenAsOutput, Prototype.outputs, List.zip_map_right, List.any_map,
      List.any_filter]
    rfl
  · rename_i hp
    rw [hp]
    rfl

/-- Of the heads that fit, one is the first and the others stand behind it. -/
theorem writesByUser_eq (f : String) (args : List Expr) :
    writesByUser functions name f args =
      ((outputArguments functions f args).any (·.isPartOf name) ||
        writesByUser (laterHeads functions f (args.map ty)) name f args) := by
  rw [any_outputArguments]
  induction functions with
  | nil => rfl
  | cons p functions ih =>
    cases hp : p.fits f (args.map ty) with
    | true => simp [writesByUser, laterHeads, hp]
    | false =>
      simp only [writesByUser, laterHeads] at ih
      simpa [writesByUser, laterHeads, hp] using ih

/-- **What is seen of a write is all but the outputs of built-in functions and of later heads.** -/
theorem writesTo_eq (e : Expr) :
    e.writesTo version functions name =
      (e.changes functions name || e.writesByBuiltin version name ||
        e.writesByLaterHead functions name) := by
  cases e with
  | call note callee args =>
    cases callee with
    | user f =>
      rw [writesTo, writesByUser_eq]
      simp [changes, writesByBuiltin, writesByLaterHead]
    | builtin f => simp [writesTo, changes, writesByLaterHead]
    | constructor ty => rfl
  | _ => simp [writesTo, changes, writesByBuiltin, writesByLaterHead]

end Expr

/-! ### Loops that count -/

/-- `void f(in int x)`. -/
def takesInt : Prototype :=
  ⟨"f", .void, none, [⟨some "x", .int, none, false, .input, none, ⟨1, 1, 0⟩⟩], ⟨1, 1, 0⟩⟩

/-- `int i = 0`, as the first part of a loop head. -/
def startAtZero : LoopStart :=
  .decl ⟨1, 1, 0⟩ ⟨{}, .int, none, none,
    [⟨"i", .int, none, some (.lit ⟨.int, .const, ⟨1, 1, 0⟩⟩ (.int 0)), ⟨1, 1, 0⟩⟩], ⟨1, 1, 0⟩⟩

/-- A variable `i`. -/
def counterVariable : Expr := .var ⟨.int, .empty, ⟨1, 1, 0⟩⟩ "i"

/-- `i < 4`. -/
def belowFour : Expr :=
  .binary ⟨.bool, .empty, ⟨1, 1, 0⟩⟩ (.compare .lt) counterVariable
    (.lit ⟨.int, .const, ⟨1, 1, 0⟩⟩ (.int 4))

/-- `i++`. -/
def stepByOne : Expr := .unary ⟨.int, .empty, ⟨1, 1, 0⟩⟩ .postIncrement counterVariable

/-- `{ f(i); abs(i); }`. -/
def callingBody : Stmt :=
  .block ⟨1, 1, 0⟩
    [.expr ⟨1, 1, 0⟩ (.call ⟨.void, .empty, ⟨1, 1, 0⟩⟩ (.user "f") [counterVariable]),
      .expr ⟨1, 1, 0⟩ (.call ⟨.int, .empty, ⟨1, 1, 0⟩⟩ (.builtin "abs") [counterVariable])]

section

variable {functions : List Prototype} {start : LoopStart} {condition step : Option Expr} {body : Stmt}
  {counter : String}

/-- **Nothing in the body of a loop that counts writes to the counter** exactly if no call gives it to a
built-in function for an output, none gives it to a user's function for an output that only a later head
has, and no array length writes to it. -/
theorem loopCounter_unwritten_iff (version : Version)
    (h : loopCounter functions start condition step body = .ok counter) :
    (∀ e ∈ body.exprs ++ body.lengths, ∀ x ∈ e.nodes, x.writesTo version functions counter = false) ↔
      (∀ x ∈ body.nodes, x.writesByBuiltin version counter = false ∧
        x.writesByLaterHead functions counter = false) ∧
      ∀ e ∈ body.lengths, ∀ x ∈ e.nodes, x.writesTo version functions counter = false := by
  have hseen : ∀ x ∈ body.nodes, (x.writesTo version functions counter = false ↔
      x.writesByBuiltin version counter = false ∧ x.writesByLaterHead functions counter = false) := by
    intro x hx
    rw [Expr.writesTo_eq, (of_loopCounter h).2 x hx, Bool.false_or, Bool.or_eq_false_iff]
  have hnodes : (∀ e ∈ body.exprs, ∀ x ∈ e.nodes, x.writesTo version functions counter = false) ↔
      ∀ x ∈ body.nodes, x.writesTo version functions counter = false := by
    simp only [Stmt.nodes, List.mem_flatMap]
    exact ⟨fun h x ⟨e, he, hx⟩ => h e he x hx, fun h e he x hx => h x ⟨e, he, hx⟩⟩
  rw [List.forall_mem_append, hnodes]
  exact and_congr_left fun _ => forall_congr' fun x => forall_congr' (hseen x)

end

theorem loopCounter_unwritten_iff_calls :
    loopCounter [takesInt] startAtZero (some belowFour) (some stepByOne) callingBody = .ok "i" ∧
      ∀ e ∈ callingBody.exprs ++ callingBody.lengths, ∀ x ∈ e.nodes,
        x.writesTo .es310 [takesInt] "i" = false := by
  have hcounts :
      loopCounter [takesInt] startAtZero (some belowFour) (some stepByOne) callingBody = .ok "i" := rfl
  exact ⟨hcounts, (loopCounter_unwritten_iff .es310 hcounts).mpr (by decide)⟩

/-- Whether a statement is a loop that counts although something in its body writes to the counter. -/
def Stmt.writesCounter (version : Version) (functions : List Prototype) : Stmt → Bool
  | .forLoop _ start condition step body =>
    match loopCounter functions start condition step body with
    | .ok counter => (body.exprs ++ body.lengths).any fun e =>
        e.nodes.any (·.writesTo version functions counter)
    | .error _ => false
  | _ => false

theorem Stmt.of_writesCounter {version : Version} {functions : List Prototype} {s : Stmt}
    (h : s.writesCounter version functions = true) :
    ∃ loc start condition step body counter, s = .forLoop loc start condition step body ∧
      loopCounter functions start condition step body = .ok counter ∧
      ∃ e ∈ body.exprs ++ body.lengths, ∃ x ∈ e.nodes,
        x.writesTo version functions counter = true := by
  unfold writesCounter at h
  split at h
  · split at h
    · rename_i hcounter
      simp only [List.any_eq_true] at h
      exact ⟨_, _, _, _, _, _, rfl, hcounter, h⟩
    · cases h
  · cases h

namespace Shader

/-- A loop of a shader counts although something in its body writes to the counter. -/
def WritesCounter (s : Shader) : Prop :=
  ∃ f ∈ s.functions, ∃ loc start condition step body counter,
    Stmt.forLoop loc start condition step body ∈ f.body ∧
    loopCounter s.prototypes start condition step body = .ok counter ∧
    ∃ e ∈ body.exprs ++ body.lengths, ∃ x ∈ e.nodes,
      x.writesTo s.version s.prototypes counter = true

theorem writesCounter_of_any {s : Shader}
    (h : (s.functions.any fun f => f.body.any (·.writesCounter s.version s.prototypes)) = true) :
    s.WritesCounter := by
  simp only [List.any_eq_true] at h
  obtain ⟨f, hf, x, hx, h⟩ := h
  obtain ⟨loc, start, condition, step, body, counter, rfl, hwritten⟩ := Stmt.of_writesCounter h
  exact ⟨f, hf, loc, start, condition, step, body, counter, hx, hwritten⟩

/-- A counter that a built-in function writes to, one that an array length increments, and one that is
given to a function whose first head has no outputs. -/
theorem exists_written_counter :
    (∃ s : Shader, s.Accepted
      "#version 310 es\nvoid main()\x7bfor(int i=0;i<4;i++)\x7bfrexp(1.,i);\x7d\x7d"
      .fragment .standard ∧ s.WritesCounter) ∧
    (∃ s : Shader, s.Accepted
      "#version 310 es\nvoid main()\x7bfor(int i=0;i<4;i++)\x7bint a[(i++,2)];\x7d\x7d"
      .fragment .standard ∧ s.WritesCounter) ∧
    ∃ s : Shader, s.Accepted
      "void f(int x);void f(out int x);void main()\x7bfor(int i=0;i<4;i++)\x7bf(i);\x7d\x7d"
      .fragment .standard ∧ s.WritesCounter := by
  refine ⟨?_, ?_, ?_⟩
  all_goals
    refine (exists_accepted (P := fun s => s.functions.any fun f =>
      f.body.any (·.writesCounter s.version s.prototypes)) ?_).imp
        fun s h => ⟨h.1, writesCounter_of_any h.2⟩
    decide +kernel

end Shader

end GlslEs
