import GlslEs.Proofs.Check.Expr
import GlslEs.Proofs.Resolve.Settled

/-!
# Constant expressions

Resolving gives the qualifier of constants to an expression from those of its operands, by a rule for each
kind of expression.  An expression that has it is made of literals and of variables with that
qualifier, by operations that change nothing and look at nothing else.

* `Expr.isConst_children`: **a constant expression is made of constant expressions**.
* `Expr.IsSteady`: a node that does not assign, does not call a user's function, a texture function or one with
  outputs, and is no sequence; a variable has a symbol with the qualifier of constants.
* `Expr.isSteady_of_isConst`: every constant node is such a node.
-/

namespace GlslEs

namespace Expr

variable {e : Expr} {loc : Location} {note : Note}

open Resolve

variable {n : Names}

/-! ### The operands of resolved expressions -/

theorem resolveAll_children (h : e.resolve n = e) : resolveAll n e.children = e.children := by
  rw [resolveAll_eq_map]
  exact map_eq_self_iff.mpr fun c hc => resolve_children h hc

theorem resolve_nodes {x : Expr} (h : e.resolve n = e) (hx : x ∈ e.nodes) : x.resolve n = x :=
  forall_nodes_of (P := fun e => e.resolve n = e) (fun _ h _ hc => resolve_children h hc) h x hx

/-! ### The operands of constants -/

theorem constant_constIf (yes : Bool) : (QualifierSet.constIf yes).constant = yes := by
  cases yes <;> rfl

theorem isConst_of_resolveCall {callee callee' : Callee} {args : List Expr}
    (h : n.resolveCall loc callee args = (callee', note)) (hconst : note.qualifiers.constant = true) :
    ∀ a ∈ args, a.isConst = true := by
  have hbuiltin : ∀ {name types allConst}, n.builtinNote loc name types allConst = note →
      allConst = true := by
    intro name types allConst hnote
    unfold Names.builtinNote at hnote
    split at hnote
    · rw [← hnote] at hconst
      exact (Bool.and_eq_true_iff.mp ((constant_constIf _).symm.trans hconst)).1
    · rw [← hnote] at hconst
      cases hconst
  have hall : (!args.isEmpty && args.all isConst) = true → ∀ a ∈ args, a.isConst = true :=
    fun h => List.all_eq_true.mp (Bool.and_eq_true_iff.mp h).2
  unfold Names.resolveCall at h
  split at h
  · cases h
    exact hall ((constant_constIf _).symm.trans hconst)
  · exact hall (hbuiltin (Prod.mk.inj h).2)
  · split at h
    · cases h
      cases hconst
    · split at h
      · exact hall (hbuiltin (Prod.mk.inj h).2)
      · cases h
        cases hconst

/-- **A constant expression is made of constant expressions.** -/
theorem isConst_children {c : Expr} (h : e.resolve n = e) (hconst : e.isConst = true)
    (hc : c ∈ e.children) : c.isConst = true := by
  have hself : ∀ c ∈ e.children, c.resolve n = c := fun c hc => resolve_children h hc
  have hall := resolveAll_children h
  cases e with
  | call note callee args =>
    rw [children] at hall
    simp only [resolve, hall, call.injEq, and_true] at h
    exact isConst_of_resolveCall (Prod.ext h.2 h.1) hconst c hc
  | seq note exprs =>
    rw [children] at hall
    simp only [resolve, hall, seq.injEq, and_true] at h
    rw [isConst, qualifiers, Expr.note, ← h] at hconst
    cases hconst
  | field note base name =>
    have hbase := hself base (by simp [children])
    simp only [resolve, hbase] at h
    split at h
    · cases h
    · simp only [field.injEq, and_true] at h
      rw [isConst, qualifiers, Expr.note, ← h] at hconst
      rw [List.mem_singleton.mp hc]
      exact hconst
  | lit note value | var note name => cases hc
  | _ =>
    simp only [children, List.mem_cons, List.not_mem_nil, or_false, forall_eq_or_imp, forall_eq] at hself
    simp only [resolve, resolvedSwizzle, hself, unary.injEq, binary.injEq, assign.injEq, ternary.injEq,
      swizzle.injEq, index.injEq, and_true] at h
    rw [isConst, qualifiers, Expr.note, ← h] at hconst
    simp only [children, List.mem_cons, List.not_mem_nil, or_false] at hc
    -- What is left follows from the rule for the qualifiers of each operation.
    grind [constant_constIf, QualifierSet.withoutConst, QualifierSet.empty, isConst]

theorem isConst_nodes {x : Expr} (h : e.resolve n = e) (hconst : e.isConst = true)
    (hx : x ∈ e.nodes) : x.isConst = true :=
  (forall_nodes_of (P := fun e => e.resolve n = e ∧ e.isConst = true) (fun _ h _ hc =>
    ⟨resolve_children h.1 hc, isConst_children h.1 h.2 hc⟩) ⟨h, hconst⟩ x hx).2

/-! ### What constants are made of -/

/-- A node that changes nothing and looks at nothing but constants: no assignment, increment or decrement, no
sequence, no call of a user's function, of a texture function or of a function with outputs, and no variable
but one whose symbol has the qualifier of constants. -/
def IsSteady (n : Names) : Expr → Prop
  | .var _ name => ∃ s, n.symbols.find? name = some s ∧ s.qualifiers.constant = true
  | .unary _ op _ => op.isIncrement = false
  | .assign .. | .seq .. | .call _ (.user _) _ => False
  | .call _ (.builtin name) args => ∃ f, Builtin.chosen? n.version name (args.map ty) = some f ∧
      f.isTexture = false ∧ f.parameters.any (·.isOutput) = false
  | _ => True

theorem exists_foldable {name : String} {types : List Ty} {allConst : Bool}
    (h : n.builtinNote loc name types allConst = note) (hconst : note.qualifiers.constant = true) :
    ∃ f, Builtin.chosen? n.version name types = some f ∧ f.isTexture = false ∧
      f.parameters.any (·.isOutput) = false := by
  unfold Names.builtinNote at h
  split at h
  · rename_i f hf
    rw [← h, constant_constIf] at hconst
    simp only [Builtin.isFoldable, Bool.and_eq_true, Bool.not_eq_true'] at hconst
    exact ⟨f, hf, hconst.2.1.1, hconst.2.1.2⟩
  · rw [← h] at hconst
    cases hconst

/-- A node with the qualifier of constants changes nothing and looks at nothing but constants. -/
theorem isSteady_of_isConst (h : e.resolve n = e) (hconst : e.isConst = true) : e.IsSteady n := by
  have hall := resolveAll_children h
  cases e with
  | var note name =>
    rw [resolve] at h
    split at h
    · rename_i s hs
      rw [isConst, qualifiers, ← h] at hconst
      exact ⟨s, hs, hconst⟩
    · rw [isConst, qualifiers, ← h] at hconst
      cases hconst
  | unary note op operand =>
    simp only [resolve, unary.injEq] at h
    rw [isConst, qualifiers, Expr.note, ← h.1] at hconst
    show op.isIncrement = false
    cases hop : op.isIncrement with
    | false => rfl
    | true =>
      simp only [hop, if_true] at hconst
      cases hconst
  | assign note op target value =>
    simp only [resolve, assign.injEq] at h
    rw [isConst, qualifiers, Expr.note, ← h.1] at hconst
    cases hconst
  | seq note exprs =>
    simp only [resolve, seq.injEq] at h
    rw [isConst, qualifiers, Expr.note, ← h.1] at hconst
    cases hconst
  | call note callee args =>
    rw [children] at hall
    simp only [resolve, hall, call.injEq, and_true] at h
    obtain ⟨hnote, hcallee⟩ := h
    rw [isConst, qualifiers, Expr.note, ← hnote] at hconst
    cases callee with
    | constructor ty => trivial
    | builtin name => exact exists_foldable rfl hconst
    | user name =>
      unfold Names.resolveCall at hconst hcallee
      dsimp only at hconst hcallee
      split at hconst
      · cases hconst
      · split at hconst
        · simp_all
        · cases hconst
  | _ => trivial

end Expr

end GlslEs
