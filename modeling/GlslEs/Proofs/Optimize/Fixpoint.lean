import GlslEs.Proofs.Check.Expr
import GlslEs.Proofs.Check.Walk
import GlslEs.Proofs.Constant.Typed
import GlslEs.Proofs.Optimize.Normal

/-!
# Optimization ends with the second pass

What a pass leaves, a second pass leaves alone: expressions are normal, empty statements are gone from
blocks, and an expression that would be removed has been removed.  So the second of the passes finds
nothing to do, far below the number of passes allowed.

* `Optimize.Stable`: a second pass does nothing.
* `Optimize.stable_stmt`, `Optimize.stable_shader`: **statements and shaders are stable**.
* `Shader.Accepted.signTyped`: in a shader without errors a sign has the type of its operand.
* `Shader.Accepted.optimized_twice`: **the passes end with the second, and optimizing again does nothing**.
-/

namespace GlslEs

namespace Optimize

variable {α : Type} {rules : List Rule} {pass : α → Optimized α}

/-- A second pass does nothing. -/
def Stable (pass : α → Optimized α) (a : α) : Prop := pass (pass a).value = .quiet (pass a).value

/-! ### Statements -/

theorem stable_expr (hrules : .unaryIdentity ∈ rules) {e : Expr} (h : e.Throughout Expr.SignTyped) :
    Stable (expr rules) e := expr_of_normal (normal_expr hrules h)

theorem stable_expr? (hrules : .unaryIdentity ∈ rules) {e : Option Expr}
    (h : ∀ x ∈ e, x.Throughout Expr.SignTyped) : Stable (expr? rules) e := by
  cases e with
  | none => rfl
  | some e =>
    have hstable := stable_expr hrules (h e rfl)
    unfold Stable at hstable ⊢
    simp only [expr?, Logged.value_map, hstable, Logged.map_quiet]

theorem Stable.mapM {as : List α} (h : ∀ a ∈ as, Stable pass a) : Stable (List.mapM pass) as := by
  unfold Stable
  rw [Logged.value_mapM]
  refine Logged.mapM_eq_quiet fun b hb => ?_
  obtain ⟨a, ha, rfl⟩ := List.mem_map.mp hb
  exact h a ha

theorem stable_declaration (hrules : .unaryIdentity ∈ rules) {d : Declaration}
    (h : ∀ e ∈ d.values, e.Throughout Expr.SignTyped) : Stable (declaration rules) d := by
  have hdeclarators : Stable (List.mapM fun x : Declarator => do
      return { x with value := ← expr? rules x.value }) d.declarators := by
    refine .mapM fun x hx => ?_
    have hvalue : Stable (expr? rules) x.value := stable_expr? hrules fun e he =>
      h e (List.mem_filterMap.mpr ⟨x, hx, he⟩)
    unfold Stable at hvalue ⊢
    simp only [Logged.value_bind, Logged.value_pure, hvalue, Logged.quiet_bind]
    rfl
  unfold Stable at hdeclarators ⊢
  simp only [declaration, Logged.value_bind, Logged.value_pure, hdeclarators, Logged.quiet_bind]
  rfl

/-- An expression that stands as a statement: what is removed stays removed, what is kept stays. -/
theorem stable_standing (hrules : .unaryIdentity ∈ rules) {e : Expr} (h : e.Throughout Expr.SignTyped)
    {keep : Expr → α} {drop : α}
    (hkeep : ∀ x, pass (keep x) = standing rules x keep drop) (hdrop : pass drop = .quiet drop) :
    Stable pass (keep e) := by
  have hstable := stable_expr hrules h
  unfold Stable at hstable ⊢
  rw [hkeep, standing]
  simp only [Logged.value_bind]
  cases hremover : remover? rules (expr rules e).value with
  | some r => exact hdrop
  | none => simp only [Logged.value_quiet, hkeep, standing, hstable, Logged.quiet_bind, hremover]

theorem stable_loopStart (hrules : .unaryIdentity ∈ rules) {start : LoopStart}
    (h : ∀ e ∈ start.exprs, e.Throughout Expr.SignTyped) : Stable (loopStart rules) start := by
  cases start with
  | absent | empty loc => rfl
  | expr loc e => exact stable_standing hrules (h e List.mem_cons_self) (fun _ => rfl) rfl
  | decl loc d =>
    have hd := stable_declaration hrules h
    unfold Stable at hd ⊢
    simp only [loopStart, Logged.value_map, hd, Logged.map_quiet]

theorem dropEmpty_filter (ss : List Stmt) :
    dropEmpty (ss.filter (!·.isEmpty)) = .quiet (ss.filter (!·.isEmpty)) := by
  refine Logged.eq_quiet ?_ ?_
  · simp [dropEmpty]
  · simp [dropEmpty]

/-- The statements of a block: the empty ones are gone after one pass. -/
theorem stmts_dropEmpty {ss : List Stmt} (h : ∀ s ∈ ss, Stable (stmt rules) s) :
    (stmts rules (dropEmpty (stmts rules ss).value).value >>= dropEmpty) =
      .quiet (dropEmpty (stmts rules ss).value).value := by
  have hfilter : stmts rules (dropEmpty (stmts rules ss).value).value =
      .quiet (dropEmpty (stmts rules ss).value).value := by
    rw [stmts_eq_mapM, stmts_eq_mapM, Logged.value_mapM]
    refine Logged.mapM_eq_quiet fun s' hs' => ?_
    obtain ⟨s, hs, rfl⟩ := List.mem_map.mp (List.mem_of_mem_filter hs')
    exact h s hs
  rw [hfilter, Logged.quiet_bind]
  exact dropEmpty_filter _

/-- **Statements are stable.** -/
theorem stable_stmt (hrules : .unaryIdentity ∈ rules) {s : Stmt}
    (h : ∀ e ∈ s.exprs, e.Throughout Expr.SignTyped) : Stable (stmt rules) s := by
  induction s with
  | expr loc e => exact stable_standing hrules (h e List.mem_cons_self) (fun _ => rfl) rfl
  | decl loc d =>
    have hd := stable_declaration hrules h
    unfold Stable at hd ⊢
    simp only [stmt, Logged.value_map, hd, Logged.map_quiet]
  | block loc body ih =>
    have hstable : ∀ s ∈ body, Stable (stmt rules) s := fun s hs => ih s hs fun e he =>
      h e (Stmt.mem_exprsAll.mpr ⟨s, hs, he⟩)
    unfold Stable
    simp only [stmt, Logged.value_bind, Logged.value_map, ← map_bind, stmts_dropEmpty hstable,
      Logged.map_quiet]
  | ifThen loc condition s ih =>
    have hcondition := stable_expr hrules (h condition List.mem_cons_self)
    have hthen := ih fun e he => h e (List.mem_cons_of_mem _ he)
    unfold Stable at hcondition hthen ⊢
    simp only [stmt, Logged.value_bind, Logged.value_map, hcondition, hthen, Logged.quiet_bind,
      Logged.map_quiet]
  | ifElse loc condition s t ihs iht =>
    have hcondition := stable_expr hrules (h condition List.mem_cons_self)
    have hthen := ihs fun e he => h e (List.mem_cons_of_mem _ (List.mem_append_left _ he))
    have helse := iht fun e he => h e (List.mem_cons_of_mem _ (List.mem_append_right _ he))
    unfold Stable at hcondition hthen helse ⊢
    simp only [stmt, Logged.value_bind, Logged.value_map, hcondition, hthen, helse, Logged.quiet_bind,
      Logged.map_quiet]
  | forLoop loc start condition step body ih =>
    simp only [Stmt.exprs, List.mem_append, Option.mem_toList] at h
    have hstart := stable_loopStart hrules fun e he => h e (.inl (.inl (.inl he)))
    have hcondition := stable_expr? hrules fun e he => h e (.inl (.inl (.inr he)))
    have hstep := stable_expr? hrules fun e he => h e (.inl (.inr he))
    have hbody := ih fun e he => h e (.inr he)
    unfold Stable at hstart hcondition hstep hbody ⊢
    simp only [stmt, Logged.value_bind, Logged.value_map, hstart, hcondition, hstep, hbody,
      Logged.quiet_bind, Logged.map_quiet]
  | whileLoop loc condition body ih =>
    have hcondition := stable_expr hrules (h condition List.mem_cons_self)
    have hbody := ih fun e he => h e (List.mem_cons_of_mem _ he)
    unfold Stable at hcondition hbody ⊢
    simp only [stmt, Logged.value_bind, Logged.value_map, hcondition, hbody, Logged.quiet_bind,
      Logged.map_quiet]
  | doWhile loc body condition ih =>
    have hcondition := stable_expr hrules (h condition List.mem_cons_self)
    have hbody := ih fun e he => h e (List.mem_cons_of_mem _ he)
    unfold Stable at hcondition hbody ⊢
    simp only [stmt, Logged.value_bind, Logged.value_pure, hcondition, hbody, Logged.quiet_bind]
    rfl
  | switch loc selector bodyLoc body ih =>
    have hselector := stable_expr hrules (h selector List.mem_cons_self)
    have hbody : Stable (stmts rules) body := by
      unfold Stable
      rw [stmts_eq_mapM, stmts_eq_mapM]
      exact Stable.mapM fun s hs => ih s hs fun e he =>
        h e (List.mem_cons_of_mem _ (Stmt.mem_exprsAll.mpr ⟨s, hs, he⟩))
    unfold Stable at hselector hbody ⊢
    simp only [stmt, Logged.value_bind, Logged.value_map, hselector, hbody, Logged.quiet_bind,
      Logged.map_quiet]
  | label loc value => rfl
  | result loc value =>
    have hvalue := stable_expr? hrules fun e he => h e (Option.mem_toList.mpr he)
    unfold Stable at hvalue ⊢
    simp only [stmt, Logged.value_map, hvalue, Logged.map_quiet]
  | jump loc kind | empty loc => rfl

/-! ### Shaders -/

theorem stable_topLevel (hrules : .unaryIdentity ∈ rules) {d : TopLevel}
    (h : ∀ e ∈ d.exprs, e.Throughout Expr.SignTyped) : Stable (topLevel rules) d := by
  cases d with
  | globals d =>
    have hd := stable_declaration hrules h
    unfold Stable at hd ⊢
    simp only [topLevel, Logged.value_map, hd, Logged.map_quiet]
  | function f =>
    have hstable : ∀ s ∈ f.body, Stable (stmt rules) s := fun s hs => stable_stmt hrules fun e he =>
      h e (Stmt.mem_exprsAll.mpr ⟨s, hs, he⟩)
    unfold Stable
    simp only [topLevel, Logged.value_bind, Logged.value_pure, ← bind_assoc, stmts_dropEmpty hstable,
      Logged.quiet_bind]
    rfl
  | _ => rfl

/-- **Shaders are stable.** -/
theorem stable_shader (hrules : .unaryIdentity ∈ rules) {s : Shader}
    (h : ∀ d ∈ s.declarations, ∀ e ∈ d.exprs, e.Throughout Expr.SignTyped) : Stable (shader rules) s := by
  have hdeclarations := Stable.mapM fun d hd => stable_topLevel hrules (h d hd)
  unfold Stable at hdeclarations ⊢
  simp only [shader, Logged.value_bind, Logged.value_pure, hdeclarations, Logged.quiet_bind]
  rfl

end Optimize

/-! ### Passes -/

namespace Optimizer

open Optimize

variable {α : Type} {pass : α → Optimized α} {a : α}

/-- A tree that a pass leaves alone takes one pass. -/
theorem toFixpoint_of_quiet (h : pass a = .quiet a) {n : Nat} (hn : 1 ≤ n) (report : OptimizationReport) :
    toFixpoint pass n a report = (a, ⟨report.passes + 1, report.applied, true⟩) := by
  obtain ⟨n, rfl⟩ := Nat.exists_eq_add_of_le' hn
  simp [toFixpoint, h, Tally.ofLog]

/-- A stable tree takes one pass, or two if there was something to do. -/
theorem toFixpoint_of_stable (h : Stable pass a) {n : Nat} (hn : 2 ≤ n) :
    ∃ applied : Tally, toFixpoint pass n a {} =
      ((pass a).value, ⟨if applied.length = 0 then 1 else 2, applied, true⟩) := by
  obtain ⟨n, rfl⟩ := Nat.exists_eq_add_of_le' hn
  rw [toFixpoint, toFixpoint_of_quiet h (Nat.le_add_left 1 n)]
  by_cases hlog : (Tally.ofLog (pass a).log).length = 0
  · exact ⟨{}, by simp [hlog]⟩
  · exact ⟨({} : Tally).absorb (.ofLog (pass a).log), by simp [hlog, Tally.absorb]⟩

theorem fst_toFixpoint_of_stable (h : Stable pass a) {n : Nat} (hn : 1 ≤ n) :
    (toFixpoint pass n a {}).1 = (pass a).value := by
  rcases Nat.lt_or_eq_of_le hn with hn | rfl
  · obtain ⟨applied, hr⟩ := toFixpoint_of_stable h hn
    rw [hr]
  · rw [toFixpoint]
    dsimp only
    split <;> rfl

theorem two_le_passLimit (rules : List Rule) (depth : Nat) : 2 ≤ (⟨rules, none⟩ : Optimizer).passLimit depth := by
  unfold passLimit
  simp only [Option.getD_none]
  omega

end Optimizer

/-! ### Shaders without errors -/

theorem Ty.scalar?_of_isError {ty : Ty} (h : ty.isError = true) : ty.scalar? = none := by
  rw [scalar?, beq_iff_eq.mp h]
  rfl

theorem UnaryOp.isError_of_result? {op : UnaryOp} {operand ty : Ty} (h : op.result? operand = some ty) :
    operand.isError = false := by
  refine Bool.eq_false_iff.mpr fun herror => ?_
  have hscalar := Ty.scalar?_of_isError herror
  cases op with
  | not =>
    simp only [result?] at h
    split at h
    · rename_i hbool
      rw [beq_iff_eq.mp hbool] at hscalar
      cases hscalar
    · cases h
  | _ => simp [result?, Ty.isInteger, Ty.isArithmetic, Ty.isNumeric, Ty.isFloat, hscalar] at h

theorem Ty.isError_of_arithmetic? {left right ty : Ty} (h : left.arithmetic? right = some ty)
    (hleft : left.isError = false) (hright : right.isError = false) : ty.isError = false := by
  unfold arithmetic? broadcast? at h
  repeat' split at h
  all_goals cases h
  all_goals assumption

namespace Expr

variable {c : Context} {n : Names} {note : Note}

theorem signTyped_unary {op : UnaryOp} {operand : Expr}
    (h : Silent (c.checkExpr (resolve n (.unary note op operand)))) :
    (resolve n (.unary note op operand)).SignTyped := by
  intro hop
  rw [resolve, Context.checkExpr, Silent.append_iff] at h
  have hreported := Silent.of_findIf h.2 rfl rfl
  dsimp only at hreported ⊢
  generalize (operand.resolve n).ty = ty at hreported ⊢
  cases hresult : op.result? ty with
  | none =>
    simp only [hresult, Option.getD_none, Bool.and_eq_false_imp] at hreported
    have herror : ty.isError = true := by simpa using hreported rfl
    simp [Ty.underSign, herror]
  | some result =>
    obtain rfl := UnaryOp.result?_eq hresult
    simp [Ty.underSign, UnaryOp.isError_of_result? hresult]

theorem signTyped_binary {op : BinaryOp} {left right : Expr} :
    (resolve n (.binary note op left right)).SignTyped := by
  rw [resolve]
  generalize (left.resolve n) = a
  generalize (right.resolve n) = b
  unfold SignTyped
  split
  · rename_i heq
    cases heq
  · rename_i heq
    cases heq
    cases hresult : BinaryOp.result? (.arith .sub) a.ty b.ty with
    | none => rfl
    | some ty =>
      obtain ⟨hleft, hright⟩ := BinaryOp.isError_of_result? hresult
      rw [BinaryOp.result?.eq_def, if_neg (by simp [hleft, hright])] at hresult
      simp [Ty.underSign, Ty.isError_of_arithmetic? hresult hleft hright]
  · trivial

/-- Where nothing is found, a sign has the type of its operand. -/
theorem signTyped_resolve {e : Expr} (h : Silent (c.checkExpr (e.resolve n))) :
    (e.resolve n).Throughout SignTyped := by
  induction e using forall_of_children with
  | h e ih =>
    have hself : (e.resolve n).SignTyped := by
      cases e with
      | unary note op operand => exact signTyped_unary h
      | binary note op left right => exact signTyped_binary
      | var note name | field note base name =>
        rw [resolve]
        split <;> trivial
      | call note callee args =>
        rw [resolve]
        trivial
      | _ => trivial
    refine .intro hself fun x hx => ?_
    have hx := visited_subset_children _ hx
    have hsilent := Context.silent_children h x hx
    rw [children_resolve] at hx
    obtain ⟨y, hy, rfl⟩ := List.mem_map.mp hx
    exact ih y hy hsilent

end Expr

namespace Shader.Accepted

variable {source : String} {stage : Stage} {limits : Limits} {s : Shader}

/-- In a shader without errors a sign has the type of its operand. -/
theorem signTyped (h : s.Accepted source stage limits) {d : TopLevel} (hd : d ∈ s.declarations) {e : Expr}
    (he : e ∈ d.exprs) : e.Throughout Expr.SignTyped := by
  obtain ⟨x, rfl, -, hsilent⟩ := h.exists_stop hd he
  exact Expr.signTyped_resolve hsilent

/-- **Optimization ends with the second pass.**  For a shader without errors, without a bound on the
number of passes, the passes end because one of them did nothing: the first if no rule applied, else the
second.  Optimizing the result does nothing and gives it back. -/
theorem optimized_twice (h : s.Accepted source stage limits) (scope : NegationScope) :
    let o := Optimizer.ofOptions ⟨none, scope⟩
    let r := o.shader s
    r.2.reachedFixpoint = true ∧ r.2.passes = (if r.2.applied.length = 0 then 1 else 2) ∧
      (o.shader r.1).2.applied = {} ∧ (o.shader r.1).1 = r.1 := by
  have hstable : Optimize.Stable (Optimize.shader (Rule.all scope)) s :=
    Optimize.stable_shader List.mem_cons_self fun d hd e he => h.signTyped hd he
  intro o r
  obtain ⟨applied, hr⟩ : ∃ applied : Tally, r = ((Optimize.shader (Rule.all scope) s).value,
      ⟨if applied.length = 0 then 1 else 2, applied, true⟩) :=
    Optimizer.toFixpoint_of_stable hstable (Optimizer.two_le_passLimit _ _)
  have hagain : o.shader r.1 = (r.1, ⟨1, {}, true⟩) := by
    rw [hr]
    exact Optimizer.toFixpoint_of_quiet hstable (Nat.le_of_succ_le (Optimizer.two_le_passLimit _ _)) {}
  rw [hagain]
  rw [hr]
  exact ⟨rfl, rfl, rfl, rfl⟩

/-- Rules that wait for each other: `0 - (-x)` becomes `-(-x)` and then `x`. -/
theorem optimized_twice_chain : ∃ s : Shader,
    s.Accepted "void main()\x7bint x=2;x=0-(-x);bool b=!(!(x<1));x+=0;\x7d" .fragment .standard ∧
      (((Optimizer.ofOptions ⟨none, .always⟩).shader s).2.applied =
        ⟨6, [("additive-identity", 2), ("empty-statement", 1), ("relational-negation", 2), ("unary-identity", 1)]⟩ ∧
      ((Optimizer.ofOptions ⟨none, .always⟩).shader s).2.passes = 2) ∧
      let o := Optimizer.ofOptions ⟨none, .always⟩
      let r := o.shader s
      r.2.reachedFixpoint = true ∧ r.2.passes = (if r.2.applied.length = 0 then 1 else 2) ∧
        (o.shader r.1).2.applied = {} ∧ (o.shader r.1).1 = r.1 := by
  refine (exists_accepted (P := fun s => decide (((Optimizer.ofOptions ⟨none, .always⟩).shader s).2.applied =
    ⟨6, [("additive-identity", 2), ("empty-statement", 1), ("relational-negation", 2), ("unary-identity", 1)]⟩ ∧
    ((Optimizer.ofOptions ⟨none, .always⟩).shader s).2.passes = 2)) ?_).imp
    fun s h => ⟨h.1, of_decide_eq_true h.2, h.1.optimized_twice .always⟩
  decide +kernel

end Shader.Accepted

end GlslEs
