import GlslEs.Optimize
import GlslEs.Proofs.Logged
import GlslEs.Proofs.Tree

/-!
# What a pass does to an expression

A pass settles every node after its operands.  What rules keep at the top of an expression, and what may be
said of an expression from its operands, holds of a whole pass and of any number of passes.

* `Expr.mapVisited`: an expression with other operands.
* `Rule.Turns`: what rules do at the top of an expression.
* `Optimize.value_expr`: a pass settles a node after its operands.
* `Optimize.Preserves`: **what rules and operands keep is kept by passes**.
-/

namespace GlslEs

/-! ### The nodes that a pass visits -/

namespace Expr

/-- The operands that a pass visits: the arguments of built-in functions are left as they are. -/
def visited : Expr → List Expr
  | .call _ (.builtin _) _ => []
  | e => e.children

/-- The expression with other operands in the place of those that a pass visits. -/
def mapVisited (f : Expr → Expr) : Expr → Expr
  | .lit note value => .lit note value
  | .var note name => .var note name
  | .unary note op operand => .unary note op (f operand)
  | .binary note op left right => .binary note op (f left) (f right)
  | .assign note op target value => .assign note op (f target) (f value)
  | .ternary note condition ifTrue ifFalse => .ternary note (f condition) (f ifTrue) (f ifFalse)
  | .call note (.builtin name) args => .call note (.builtin name) args
  | .call note callee args => .call note callee (args.map f)
  | .swizzle note base set components => .swizzle note (f base) set components
  | .field note base name => .field note (f base) name
  | .index note base position => .index note (f base) (f position)
  | .seq note items => .seq note (items.map f)

/-- Whether an expression is an operation of the kinds that rules are about. -/
def isOperation : Expr → Bool
  | .unary .. | .binary .. | .ternary .. => true
  | _ => false

theorem visited_subset_children (e : Expr) : e.visited ⊆ e.children := by
  unfold visited
  split
  · exact List.nil_subset _
  · exact List.Subset.refl _

theorem visited_mapVisited (f : Expr → Expr) (e : Expr) :
    (e.mapVisited f).visited = e.visited.map f := by
  cases e with
  | call note callee args => cases callee <;> rfl
  | _ => rfl

theorem forall_children_mapVisited {P : Expr → Prop} {f : Expr → Expr} {e : Expr} (h : ∀ c ∈ e.children, P c)
    (hf : ∀ c ∈ e.visited, P (f c)) : ∀ c ∈ (e.mapVisited f).children, P c := by
  have hmap : ∀ c ∈ e.visited.map f, P c := by simpa using hf
  rw [← visited_mapVisited] at hmap
  cases e with
  | call note callee args =>
    cases callee with
    | builtin name => exact h
    | _ => exact hmap
  | _ => exact hmap

theorem ty_mapVisited (f : Expr → Expr) (e : Expr) : (e.mapVisited f).ty = e.ty := by
  cases e with
  | call note callee args => cases callee <;> rfl
  | _ => rfl

theorem mapVisited_eq_self {f : Expr → Expr} {e : Expr} (h : ∀ c ∈ e.visited, f c = c) :
    e.mapVisited f = e := by
  cases e with
  | call note callee args =>
    cases callee with
    | builtin name => rfl
    | _ => exact congrArg (Expr.call _ _) ((List.map_congr_left h).trans (List.map_id _))
  | seq note items => exact congrArg (Expr.seq note) ((List.map_congr_left h).trans (List.map_id _))
  | _ => simp_all [visited, children, mapVisited]

end Expr

/-! ### What one rule can do -/

namespace Rule

/-- A right side that changes nothing: a zero that is added or taken away, or a one that is multiplied or divided
with each component. -/
def RightNeutral (op : ArithOp) (a b : Expr) : Prop :=
  (op = .add ∨ op = .sub) ∧ b.isZero = true ∨
    (op = .mul ∨ op = .div) ∧ b.isOne = true ∧ isComponentwise b.ty a.ty = true

/-- A left side that changes nothing. -/
def LeftNeutral (op : ArithOp) (a b : Expr) : Prop :=
  op = .add ∧ a.isZero = true ∨
    op = .mul ∧ a.isOne = true ∧ b.ty.isMatrix = false ∧ isComponentwise a.ty b.ty = true

/-- What rules do to the top of an expression: they give an operand of the same type, or put operands
together anew. -/
inductive Turns (rules : List Rule) : Expr → Expr → Prop
  | plus (note : Note) (x : Expr) : Turns rules (.unary note .plus x) x
  | twice {note : Note} (inner : Note) {op : UnaryOp} {x : Expr} (hop : op.isIncrement = false)
    (hty : x.ty = note.ty) : Turns rules (.unary note op (.unary inner op x)) x
  | negated {scope : NegationScope} (hrule : .relationalNegation scope ∈ rules) (note inner : Note) {op : CompareOp}
    {a : Expr} (b : Expr) (hallowed : scope.allows op a.ty = true) :
    Turns rules (.unary note .not (.binary inner (.compare op) a b))
      (.binary ⟨note.ty, inner.qualifiers, note.loc⟩ (.compare op.negated) a b)
  | turned (note inner : Note) (c a b : Expr) :
    Turns rules (.ternary note (.unary inner .not c) a b) (.ternary note c b a)
  | left {note : Note} {op : ArithOp} {a b : Expr} (hb : RightNeutral op a b) (hty : a.ty = note.ty) :
    Turns rules (.binary note (.arith op) a b) a
  | right {note : Note} {op : ArithOp} {a b : Expr} (ha : LeftNeutral op a b) (hty : b.ty = note.ty) :
    Turns rules (.binary note (.arith op) a b) b
  | minus {note : Note} {a b : Expr} (ha : a.isZero = true) (hty : b.ty = note.ty) :
    Turns rules (.binary note (.arith .sub) a b) (.unary ⟨b.ty, note.qualifiers, note.loc⟩ .minus b)

theorem turns_of_expr? {rules : List Rule} {r : Rule} (hr : r ∈ rules) {e e' : Expr} (h : r.expr? e = some e') :
    Turns rules e e' := by
  cases r with
  | unaryIdentity =>
    simp only [expr?, unaryIdentity?] at h
    split at h
    · cases h
      exact .plus _ _
    · split at h
      · rename_i hcondition
        simp only [Bool.and_eq_true, Bool.not_eq_true', decide_eq_true_eq] at hcondition
        obtain ⟨⟨hop, rfl⟩, hty⟩ := hcondition
        cases h
        exact .twice _ hop hty
      · cases h
    · cases h
  | relationalNegation scope =>
    simp only [expr?, relationalNegation?] at h
    split at h
    · split at h
      · cases h
        exact .negated hr _ _ _ (by assumption)
      · cases h
    · cases h
  | ternaryNegation =>
    simp only [expr?, ternaryNegation?] at h
    split at h
    · cases h
      exact .turned _ _ _ _ _
    · cases h
  | additiveIdentity =>
    simp only [expr?, additiveIdentity?, Bool.and_eq_true, decide_eq_true_eq] at h
    repeat' split at h
    all_goals try cases h
    · rename_i hzero
      exact .left (.inl ⟨.inl rfl, hzero.1⟩) hzero.2
    · rename_i hzero
      exact .right (.inl ⟨rfl, hzero.1⟩) hzero.2
    · rename_i hzero
      exact .left (.inl ⟨.inr rfl, hzero.1⟩) hzero.2
    · rename_i hzero
      exact .minus hzero.1 hzero.2
  | multiplicativeIdentity =>
    simp only [expr?, multiplicativeIdentity?, Bool.and_eq_true, decide_eq_true_eq, Bool.not_eq_true'] at h
    repeat' split at h
    all_goals try cases h
    · rename_i hone
      exact .left (.inr ⟨.inl rfl, hone.1.1, hone.2⟩) hone.1.2
    · rename_i hone
      exact .right (.inr ⟨rfl, hone.1.1.1, hone.1.2, hone.2⟩) hone.1.1.2
    · rename_i hone
      exact .left (.inr ⟨.inr rfl, hone.1.1, hone.2⟩) hone.1.2

/-- What holds of all nodes holds after a rule, if it holds of the operation that the rule may put at the top. -/
theorem Turns.forall_nodes {rules : List Rule} {P : Expr → Prop} {e e' : Expr} (h : Turns rules e e')
    (hall : ∀ x ∈ e.nodes, P x) (hnew : e'.isOperation = true → P e') : ∀ x ∈ e'.nodes, P x := by
  obtain ⟨-, hchildren⟩ := Expr.forall_mem_nodes.mp hall
  cases h with
  | plus note x => exact hchildren e' (by simp [Expr.children])
  | @twice note inner op x hop hty =>
    have hinner := hchildren (.unary inner op e') (by simp [Expr.children])
    exact (Expr.forall_mem_nodes.mp hinner).2 e' (by simp [Expr.children])
  | @negated scope hrule note inner op a b hallowed =>
    have hinner := hchildren (.binary inner (.compare op) a b) (by simp [Expr.children])
    exact Expr.forall_mem_nodes.mpr ⟨hnew rfl, (Expr.forall_mem_nodes.mp hinner).2⟩
  | turned note inner c a b =>
    have hnot := hchildren (.unary inner .not c) (by simp [Expr.children])
    refine Expr.forall_mem_nodes.mpr ⟨hnew rfl, ?_⟩
    simp only [Expr.children, List.forall_mem_cons] at hchildren ⊢
    exact ⟨(Expr.forall_mem_nodes.mp hnot).2 c (by simp [Expr.children]), hchildren.2.2.1, hchildren.2.1, by simp⟩
  | left hb hty | right ha hty => exact hchildren e' (by simp [Expr.children])
  | @minus note a b ha hty =>
    have hb := hchildren b (by simp [Expr.children])
    exact Expr.forall_mem_nodes.mpr ⟨hnew rfl, by simpa [Expr.children] using hb⟩

end Rule

namespace Optimize

variable {rules : List Rule} {e : Expr} {name : String}

theorem firstStep?_eq_none_iff : firstStep? rules e = none ↔ ∀ r ∈ rules, r.expr? e = none := by
  simp [firstStep?, List.findSome?_eq_none_iff]

theorem exists_rule_of_firstStep? {e' : Expr} (h : firstStep? rules e = some (name, e')) :
    ∃ r ∈ rules, r.expr? e = some e' := by
  obtain ⟨r, hr, hstep⟩ := List.exists_of_findSome?_eq_some h
  obtain ⟨e'', he, heq⟩ := Option.map_eq_some_iff.mp hstep
  exact ⟨r, hr, by rw [he, (Prod.mk.inj heq).2]⟩

theorem settle_of_eq_none (h : firstStep? rules e = none) (n : Nat) :
    settle rules n e = .quiet e := by
  cases n with
  | zero => rfl
  | succ n => simp only [settle, h]

theorem settle_of_eq_some {e' : Expr} (h : firstStep? rules e = some (name, e')) (n : Nat) :
    (settle rules (n + 1) e).value = (settle rules n e').value := by
  simp only [settle, h, Logged.value_bind]

/-- No rule applies to a call. -/
theorem expr?_call (r : Rule) (note : Note) (callee : Callee) (args : List Expr) :
    r.expr? (.call note callee args) = none := by
  cases r <;> rfl

theorem exprs_eq_mapM (es : List Expr) : exprs rules es = es.mapM (expr rules) := by
  induction es with
  | nil => rfl
  | cons e es ih => rw [exprs, ih, List.mapM_cons]

theorem stmts_eq_mapM (ss : List Stmt) : stmts rules ss = ss.mapM (stmt rules) := by
  induction ss with
  | nil => rfl
  | cons s ss ih => rw [stmts, ih, List.mapM_cons]

/-- A pass settles a node after its operands. -/
theorem value_expr (e : Expr) :
    (expr rules e).value = (top rules (e.mapVisited fun c => (expr rules c).value)).value := by
  cases e with
  | call note callee args =>
    cases callee with
    | builtin name =>
      have hstep : firstStep? rules (.call note (.builtin name) args) = none :=
        firstStep?_eq_none_iff.mpr fun r _ => expr?_call r _ _ _
      rw [Expr.mapVisited, top, settle_of_eq_none hstep, expr]
    | _ => simp only [expr, Expr.mapVisited, exprs_eq_mapM, Logged.value_bind, Logged.value_mapM]
  | seq note items => simp only [expr, Expr.mapVisited, exprs_eq_mapM, Logged.value_bind, Logged.value_mapM]
  | _ => rfl

/-- What is done at a node comes after what is done at its operands. -/
theorem log_expr (e : Expr) :
    (expr rules e).log = e.visited.flatMap (fun c => (expr rules c).log) ++
      (top rules (e.mapVisited fun c => (expr rules c).value)).log := by
  cases e with
  | call note callee args =>
    cases callee with
    | builtin name =>
      have hstep : firstStep? rules (.call note (.builtin name) args) = none :=
        firstStep?_eq_none_iff.mpr fun r _ => expr?_call r _ _ _
      rw [Expr.mapVisited, top, settle_of_eq_none hstep, expr]
      rfl
    | _ => simp only [expr, Expr.mapVisited, Expr.visited, Expr.children, exprs_eq_mapM, Logged.log_bind,
        Logged.value_mapM, Logged.log_mapM]
  | seq note items => simp only [expr, Expr.mapVisited, Expr.visited, Expr.children, exprs_eq_mapM,
      Logged.log_bind, Logged.value_mapM, Logged.log_mapM]
  | _ => simp [expr, Expr.mapVisited, Expr.visited, Expr.children, List.append_assoc]

theorem turns_of_firstStep? {e' : Expr} (h : firstStep? rules e = some (name, e')) :
    Rule.Turns rules e e' := by
  obtain ⟨r, hr, h⟩ := exists_rule_of_firstStep? h
  exact Rule.turns_of_expr? hr h

/-! ### What passes keep -/

/-- What one pass keeps is kept by any number of passes. -/
theorem of_toFixpoint {α : Type} {pass : α → Optimized α} {P : α → Prop} (hpass : ∀ a, P a → P (pass a).value)
    {a : α} (ha : P a) (n : Nat) (report : OptimizationReport) :
    P (Optimizer.toFixpoint pass n a report).1 := by
  induction n generalizing a report with
  | zero => exact ha
  | succ n ih =>
    rw [Optimizer.toFixpoint]
    dsimp only
    split
    · exact hpass a ha
    · exact ih (hpass a ha) _

/-- A property of expressions that rules and replaced operands keep, and a relation to what they were before. -/
structure Preserves (rules : List Rule) (V : Expr → Prop) (R : Expr → Expr → Prop) : Prop where
  refl : ∀ {e}, V e → R e e
  trans : ∀ {e₁ e₂ e₃}, R e₁ e₂ → R e₂ e₃ → R e₁ e₃
  turns : ∀ {e e'}, V e → Rule.Turns rules e e' → V e' ∧ R e e'
  child : ∀ {e c}, V e → c ∈ e.visited → V c
  visited : ∀ {e f}, V e → (∀ c ∈ e.visited, V (f c) ∧ R c (f c)) → V (e.mapVisited f) ∧ R e (e.mapVisited f)

namespace Preserves

variable {V : Expr → Prop} {R : Expr → Expr → Prop} {e : Expr}

theorem settle (h : Preserves rules V R) (he : V e) (n : Nat) :
    V (settle rules n e).value ∧ R e (settle rules n e).value := by
  induction n generalizing e with
  | zero => exact ⟨he, h.refl he⟩
  | succ n ih =>
    cases hstep : firstStep? rules e with
    | none =>
      rw [settle_of_eq_none hstep]
      exact ⟨he, h.refl he⟩
    | some step =>
      obtain ⟨hnew, hstep'⟩ := h.turns he (turns_of_firstStep? hstep)
      obtain ⟨hrest, hsettled⟩ := ih hnew
      rw [settle_of_eq_some hstep]
      exact ⟨hrest, h.trans hstep' hsettled⟩

/-- One pass. -/
theorem expr (h : Preserves rules V R) (he : V e) : V (expr rules e).value ∧ R e (expr rules e).value := by
  induction e using Expr.forall_of_children with
  | h e ih =>
    obtain ⟨hnode, hnodes⟩ := h.visited (f := fun c => (Optimize.expr rules c).value) he fun c hc =>
      ih c (e.visited_subset_children hc) (h.child he hc)
    obtain ⟨hnew, hsettled⟩ := h.settle hnode stepsPerNode
    rw [value_expr]
    exact ⟨hnew, h.trans hnodes hsettled⟩

/-- Any number of passes. -/
theorem toFixpoint (h : Preserves rules V R) (he : V e) (n : Nat) :
    V (Optimizer.toFixpoint (Optimize.expr rules) n e {}).1 ∧
      R e (Optimizer.toFixpoint (Optimize.expr rules) n e {}).1 := by
  refine of_toFixpoint (P := fun e' => V e' ∧ R e e') (fun e' he' => ?_) ⟨he, h.refl he⟩ n {}
  obtain ⟨hpass, hrelated⟩ := h.expr he'.1
  exact ⟨hpass, h.trans he'.2 hrelated⟩

end Preserves

end Optimize

end GlslEs
