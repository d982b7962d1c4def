import GlslEs.Proofs.Tree
import GlslEs.Check.Shader

/-!
# What single declarations exceed

The checks of directives, declarations, statements and expressions look at one place at a time.  What
they find is never about the calls of the whole shader, and the bounds that they find exceeded are
those of a single expression, function head, layout or offset.  So a report about a running total, or
about recursion, comes from the check of the capacities, or of the calls, and from nowhere else.

* `Local`: all findings are of that kind.
* `Context.local_checkTopLevels`: **all findings in the declarations of a shader are local**.
* `Shader.exists_findings_eq`: the findings of a shader are local ones, those about capacities and
  those about calls.
-/

namespace GlslEs

/-- Whether a bound is about a single expression, function head, layout or offset. -/
def Bound.isLocal : Bound → Bool
  | .maxExpressionComplexity | .maxFunctionParameters | .maxViewsOvr
  | .maxComputeWorkGroupSizeX | .maxComputeWorkGroupSizeY | .maxComputeWorkGroupSizeZ
  | .minProgramTexelOffset | .maxProgramTexelOffset
  | .minProgramTextureGatherOffset | .maxProgramTextureGatherOffset => true
  | _ => false

/-- Whether a problem is about a single place of a shader. -/
def Problem.isLocal : Problem → Bool
  | .exceeds _ b _ => b.isLocal
  | .recursion _ => false
  | _ => true

/-- All findings are about single places of a shader. -/
def Local (fs : List Finding) : Prop := ∀ f ∈ fs, f.problem.isLocal = true

namespace Local

variable {fs gs : List Finding}

@[simp]
theorem nil : Local [] := fun _ hf => by cases hf

@[simp]
theorem cons_iff {f : Finding} : Local (f :: fs) ↔ f.problem.isLocal = true ∧ Local fs :=
  List.forall_mem_cons

@[simp]
theorem append_iff : Local (fs ++ gs) ↔ Local fs ∧ Local gs := by
  simp only [Local, List.mem_append, or_imp, forall_and]

@[simp]
theorem flatMap {α : Type} {xs : List α} {f : α → List Finding} (h : ∀ x, Local (f x)) :
    Local (xs.flatMap f) := by
  intro g hg
  obtain ⟨x, -, hg⟩ := List.mem_flatMap.mp hg
  exact h x g hg

@[simp]
theorem getD {α : Type} {x : Option α} {f : α → List Finding} (h : ∀ a, Local (f a)) :
    Local ((x.map f).getD []) := by
  cases x with
  | none => exact nil
  | some a => exact h a

@[simp]
theorem findIf_iff {yes : Bool} {problem : Problem} {loc : Location} :
    Local (Context.findIf yes problem loc) ↔ (yes = true → problem.isLocal = true) := by
  cases yes <;> simp [Context.findIf]

end Local

namespace Context

variable (c : Context)

attribute [local simp] Problem.isLocal exceeding needsEs3 unsupported

/-! What is found at one place.  A check looks at one case after the other, and what it finds in each is
local. -/

@[simp]
theorem local_needsExtension (e : Extension) (loc : Location) : Local (c.needsExtension e loc) := by
  unfold needsExtension
  repeat' split
  all_goals simp

@[simp]
theorem local_checkDirective (use : ExtensionUse) : Local (c.checkDirective use) := by
  unfold checkDirective
  repeat' split
  all_goals simp

@[simp]
theorem local_checkType (ty : Ty) (loc : Location) : Local (c.checkType ty loc) := by
  unfold checkType
  repeat' split
  all_goals simp

@[simp]
theorem local_checkFloatPrecision (ty : Ty) (p : Option Precision) (loc : Location) :
    Local (c.checkFloatPrecision ty p loc) := by
  simp [checkFloatPrecision, checkPrecision]

/-! ### Expressions -/

@[simp]
theorem local_checkIndex (base position : Expr) (loc : Location) :
    Local (c.checkIndex base position loc) := by
  unfold checkIndex
  repeat' split
  all_goals simp

@[simp]
theorem local_checkTarget (e : Expr) : Local (c.checkTarget e) := by
  unfold checkTarget
  repeat' split
  all_goals simp

@[simp]
theorem local_outputs {α : Type} (parameters : List α) (isOutput : α → Bool) (args : List Expr) :
    Local ((parameters.zip args).flatMap fun (p, arg) =>
      if isOutput p then c.checkTarget arg else []) := by
  refine .flatMap fun (p, arg) => ?_
  dsimp only
  split <;> simp

@[simp]
theorem local_checkConstructor (ty : Ty) (args : List Expr) (loc : Location) :
    Local (c.checkConstructor ty args loc) := by
  refine Local.append_iff.mpr ⟨c.local_checkType ty loc, ?_⟩
  split
  · simp
  · dsimp only
    split <;> simp

@[simp]
theorem local_checkOffset (kind : OffsetKind) (offset : Expr) : Local (c.checkOffset kind offset) := by
  unfold checkOffset
  split
  · simp
  · refine .flatMap fun x => ?_
    cases kind <;> simp only [checkOffsetComponent] <;> repeat' split
    all_goals simp [Bound.isLocal]

@[simp]
theorem local_checkBuiltinUse (f : BuiltinFunction) (args : List Expr) (loc : Location) :
    Local (c.checkBuiltinUse f args loc) := by
  unfold checkBuiltinUse
  simp only [Local.append_iff]
  refine ⟨⟨⟨?_, ?_⟩, c.local_outputs f.parameters _ args⟩, ?_⟩ <;> split <;> simp

@[simp]
theorem local_checkCall (callee : Callee) (args : List Expr) (loc : Location) :
    Local (c.checkCall callee args loc) := by
  unfold checkCall
  split
  · exact .nil
  · cases callee with
    | constructor ty => exact c.local_checkConstructor ty args loc
    | builtin name =>
      dsimp only [checkBuiltinCall]
      repeat' split
      all_goals simp
    | user name =>
      show Local (c.checkUserCall name args loc)
      unfold checkUserCall
      extract_lets overloads
      split
      · exact c.local_outputs _ (fun p : Parameter => p.direction.writes) args
      · simp

@[simp]
theorem local_checkBuiltinVariable (name : String) (loc : Location) :
    Local (c.checkBuiltinVariable name loc) := by
  unfold checkBuiltinVariable
  split
  · exact .nil
  · rw [Local.append_iff]
    constructor <;> split <;> simp

@[simp]
theorem local_checkOperator (op : BinaryOp) (loc : Location) : Local (c.checkOperator op loc) := by
  unfold checkOperator
  split <;> simp

@[simp]
theorem local_checkAssign (op : AssignOp) (target value : Expr) (loc : Location) :
    Local (c.checkAssign op target value loc) := by
  refine Local.append_iff.mpr ⟨c.local_checkTarget target, ?_⟩
  repeat' split
  all_goals simp

theorem local_checkExprs {es : List Expr} (h : ∀ e ∈ es, Local (c.checkExpr e)) :
    Local (c.checkExprs es) := by
  induction es with
  | nil => exact .nil
  | cons e es ih =>
    rw [checkExprs, Local.append_iff]
    exact ⟨h e List.mem_cons_self, ih fun x hx => h x (List.mem_cons_of_mem _ hx)⟩

@[simp]
theorem local_checkExpr (e : Expr) : Local (c.checkExpr e) := by
  induction e using Expr.forall_of_children with
  | h e ih =>
    cases e with
    | call note callee args | seq note exprs =>
      have hargs := c.local_checkExprs ih
      rw [Expr.children] at hargs
      simp [checkExpr, hargs]
    | lit note value => cases value <;> simp [checkExpr]
    | field note base name =>
      have hbase := ih base (by simp [Expr.children])
      simp only [checkExpr, Local.append_iff, hbase, true_and]
      split <;> simp
    | _ =>
      -- The operands are checked first, and then what the node itself may find.
      simp only [Expr.children, List.forall_mem_cons] at ih
      simp only [checkExpr, Local.append_iff]
      repeat' split
      all_goals simp [ih, checkCondition]

@[simp]
theorem local_checkWhole (e : Expr) : Local (c.checkWhole e) := by
  simp [checkWhole, Bound.isLocal]

/-! ### Declarations -/

@[simp]
theorem local_checkLayout (q : TypeQualifiers) (loc : Location) : Local (c.checkLayout q loc) := by
  refine Local.append_iff.mpr ⟨?_, ?_⟩
  · unfold checkLocalSizes
    split
    · exact .nil
    · split
      · simp
      · refine .flatMap fun axis => ?_
        unfold checkLocalSize
        repeat' split
        all_goals cases axis <;> simp [Bound.isLocal, Axis.bound]
  · unfold checkViews
    repeat' split
    all_goals simp [Bound.isLocal]

@[simp]
theorem local_checkGlobalStorage (storage : Storage) (loc : Location) :
    Local (c.checkGlobalStorage storage loc) := by
  unfold checkGlobalStorage
  repeat' split
  all_goals simp

@[simp]
theorem local_checkInterfaceType (d : Declaration) (storage : Storage) :
    Local (c.checkInterfaceType d storage) := by
  unfold checkInterfaceType
  repeat' split
  all_goals simp

@[simp]
theorem local_checkStorage (d : Declaration) (isGlobal : Bool) : Local (c.checkStorage d isGlobal) := by
  unfold checkStorage
  repeat' split
  all_goals simp

@[simp]
theorem local_checkMembers (ms : List Member) : Local (c.checkMembers ms) := by
  simp [checkMembers]

@[simp]
theorem local_checkStartValue (q : TypeQualifiers) (isGlobal : Bool) (x : Declarator) (value : Expr) :
    Local (c.checkStartValue q isGlobal x value) := by
  unfold checkStartValue
  cases q.storage <;> simp

@[simp]
theorem local_checkDeclarator (q : TypeQualifiers) (isGlobal : Bool) (x : Declarator) :
    Local (c.checkDeclarator q isGlobal x) := by
  unfold checkDeclarator
  repeat' split
  all_goals simp

@[simp]
theorem local_checkDeclarators (q : TypeQualifiers) (isGlobal : Bool) (xs : List Declarator) :
    Local (c.checkDeclarators q isGlobal xs) := by
  induction xs generalizing c with
  | nil => exact .nil
  | cons x xs ih => simp [checkDeclarators, ih]

@[simp]
theorem local_checkDeclaration (isGlobal : Bool) (d : Declaration) :
    Local (c.checkDeclaration isGlobal d) := by
  simp [checkDeclaration]

@[simp]
theorem local_checkBlock (b : InterfaceBlock) : Local (c.checkBlock b) := by
  unfold checkBlock checkBlockStorage
  repeat' split
  all_goals simp

@[simp]
theorem local_checkPrototype (p : Prototype) : Local (c.checkPrototype p) := by
  unfold checkPrototype
  split <;> simp [checkParameter, Bound.isLocal]

/-! ### Statements -/

@[simp]
theorem local_checkStart (start : LoopStart) : Local (c.checkStart start) := by
  cases start <;> simp [checkStart]

@[simp]
theorem local_checkTest (place : ConditionPlace) (e : Expr) : Local (c.checkTest place e) := by
  simp [checkTest, checkCondition]

@[simp]
theorem local_checkInduction (loc : Location) (counter : Except InductionProblem String) :
    Local (c.checkInduction loc counter) := by
  cases counter <;> simp [checkInduction]

theorem local_checkStmts {ss : List Stmt} (h : ∀ s ∈ ss, ∀ c : Context, Local (c.checkStmt false s)) :
    Local (c.checkStmts ss) := by
  induction ss generalizing c with
  | nil => exact .nil
  | cons s ss ih =>
    rw [checkStmts, Local.append_iff]
    exact ⟨h s List.mem_cons_self c, ih _ fun x hx => h x (List.mem_cons_of_mem _ hx)⟩

theorem local_checkStmt (inner : Bool) (s : Stmt) : Local (c.checkStmt inner s) := by
  induction s using Stmt.forall_of_children generalizing c inner with
  | h s ih =>
    cases s with
    | block loc body | switch loc selector bodyLoc body =>
      have hbody := fun c : Context => c.local_checkStmts fun s hs c => ih s hs c false
      rw [Stmt.children] at hbody
      simp [checkStmt, checkSelector, hbody]
    | label loc value => cases value <;> simp [checkStmt, checkLabel]
    | result loc value => cases value <;> simp [checkStmt, checkResult]
    | _ =>
      simp only [Stmt.children, List.forall_mem_cons] at ih
      simp [checkStmt, ih]

/-! ### Shaders -/

theorem local_checkTopLevel (d : TopLevel) : Local (c.checkTopLevel d) := by
  cases d with
  | function f =>
    have hbody (c : Context) : Local (c.checkStmts f.body) :=
      c.local_checkStmts fun s _ c => c.local_checkStmt false s
    simp [checkTopLevel, checkFunction, hbody]
  | _ => simp [checkTopLevel, checkPrecision]

/-- **All findings in the declarations of a shader are local.** -/
theorem local_checkTopLevels (ds : List TopLevel) : Local (c.checkTopLevels ds) := by
  induction ds generalizing c with
  | nil => exact .nil
  | cons d ds ih =>
    rw [checkTopLevels, Local.append_iff]
    exact ⟨c.local_checkTopLevel d, ih _⟩

end Context

/-! ### The whole shader -/

namespace Context

variable {c : Context} {x : Finding}

theorem exceeds_of_mem_exceeding {b : Bound} {n : Int} {amount : Amount} {loc : Location}
    (hx : x ∈ c.exceeding b n amount loc) : x = ⟨.exceeds amount b (c.limits.bound b), loc⟩ := by
  unfold exceeding findIf at hx
  split at hx
  · exact List.mem_singleton.mp hx
  · cases hx

/-- The findings about capacities are about bounds. -/
theorem exceeds_of_mem_checkLoads {t : Totals} {ls : List Load} (hx : x ∈ c.checkLoads t ls) :
    ∃ amount b n, x.problem = .exceeds amount b n := by
  induction ls generalizing t with
  | nil => cases hx
  | cons l ls ih =>
    rcases List.mem_append.mp hx with hx | hx
    · cases l <;> exact ⟨_, _, _, by rw [exceeds_of_mem_exceeding hx]⟩
    · exact ih hx

end Context

/-- The findings of a shader are local ones, then those about capacities and those about calls. -/
theorem Shader.exists_findings_eq (s : Shader) (stage : Stage) (limits : Limits) :
    let after := (Context.ofShader s stage limits).afterTopLevels s.declarations
    ∃ fs, Local fs ∧
      s.findings stage limits = fs ++ after.checkLoads .zero (after.loads s) ++ after.checkCalls s := by
  refine ⟨_, ?_, rfl⟩
  simp only [Local.append_iff]
  refine ⟨⟨⟨.flatMap fun use => Context.local_checkDirective _ use, Context.local_checkTopLevels _ _⟩,
    Local.findIf_iff.mpr fun _ => rfl⟩, ?_⟩
  split <;> simp [Problem.isLocal, Context.unsupported]

end GlslEs
