import GlslEs.Proofs.Check.Silent
import GlslEs.Proofs.Resolve.Names
import GlslEs.Proofs.Tree

/-!
# Expressions that are checked silently

Checking reports an expression of the type `error` unless an operand has that type already.  So where it is
silent, an operation on operands with types has a type.

* `Context.silent_children`: checking goes through the operands.
* `Expr.ty_known_of_silent`: **an operation that is checked silently has a type** if its operands have.
* `Expr.builtinNote_known`: so has a call of a built-in function.
-/

namespace GlslEs

namespace Context

theorem checkExprs_eq_flatMap (c : Context) (es : List Expr) :
    c.checkExprs es = es.flatMap c.checkExpr := by
  induction es with
  | nil => rfl
  | cons e es ih => rw [checkExprs, ih, List.flatMap_cons]

/-- A silent check of an expression is a silent check of its operands. -/
theorem silent_children {c : Context} {e : Expr} (h : Silent (c.checkExpr e)) :
    ∀ x ∈ e.children, Silent (c.checkExpr x) := by
  cases e with
  | lit note value | var note name => simp [Expr.children]
  | call note callee args =>
    rw [checkExpr, checkExprs_eq_flatMap, Silent.append_iff] at h
    exact Silent.flatMap_iff.mp h.1
  | seq note exprs =>
    rw [checkExpr, checkExprs_eq_flatMap] at h
    exact Silent.flatMap_iff.mp h
  | _ => simp_all [checkExpr, Expr.children]

end Context

/-! ### Types that are known -/

theorem Constant.ty_known (value : Constant) : value.ty.isError = false := by
  cases value <;> rfl

/-- An index into something with a known type has a known type. -/
theorem Ty.indexed?_known {ty : Ty} (hty : ty.isError = false) {bound : Nat}
    (h : ty.indexBound? = some bound) : (ty.indexed?.getD .error).isError = false := by
  unfold Ty.indexBound? at h
  split at h
  · exact hty
  · rfl
  · rfl
  · cases h

namespace Builtin

variable {name : String} {args : List Ty}

/-- How the slots are filled does not decide whether a type is known. -/
theorem isError_fill (slot : Slot) (f g : Filling) :
    (slot.fill f).isError = (slot.fill g).isError := by
  induction slot with
  | written slot ih => exact ih
  | _ => rfl

/-- No signature of the table lacks a result type. -/
theorem signatures_known :
    (all.all fun g => g.signatures.all fun s => !(s.result.fill ⟨1, 2, 2, .float⟩).isError) = true := by
  decide +kernel

theorem result_known {f : BuiltinFunction}
    (h : f ∈ matching name args) : f.result.isError = false := by
  have hf := (List.mem_filter.mp h).1
  simp only [overloads, List.mem_flatMap, List.mem_filter, Group.expand, List.mem_map] at hf
  obtain ⟨g, hg, s, ⟨hs, -⟩, filling, -, rfl⟩ := hf
  have := List.all_eq_true.mp (List.all_eq_true.mp signatures_known g hg) s hs
  rw [isError_fill s.result filling ⟨1, 2, 2, .float⟩]
  simpa using this

/-- A built-in function is chosen whenever one takes the arguments. -/
theorem chosen?_known (version : Version) (h : matching name args ≠ []) :
    ∃ f, chosen? version name args = some f ∧ f.result.isError = false := by
  obtain ⟨first, rest, hfound⟩ := List.exists_cons_of_ne_nil h
  unfold chosen?
  dsimp only
  cases hfind : (matching name args).find? (·.availableIn version) with
  | some f => exact ⟨f, rfl, result_known (List.mem_of_find?_eq_some hfind)⟩
  | none =>
    have hmem : first ∈ matching name args := by simp [hfound]
    exact ⟨first, by simp [hfound], result_known hmem⟩

end Builtin

/-! ### One node -/

namespace Expr

variable {n : Names} {c : Context} {name : String} {args : List Expr}

/-- An operation that is reported if it lacks a type although its operands have types. -/
def isTypedOperation : Expr → Bool
  | .unary .. | .binary .. | .ternary .. | .swizzle .. | .field .. => true
  | _ => false

theorem ty_known_of_silent {e : Expr} (he : e.isTypedOperation = true)
    (hchildren : ∀ x ∈ e.children, x.ty.isError = false) (h : Silent (c.checkExpr e)) :
    e.ty.isError = false := by
  cases e with
  | unary note op operand =>
    simp only [children, List.mem_singleton, forall_eq] at hchildren
    simp only [Context.checkExpr, Silent.append_iff] at h
    show note.ty.isError = false
    simpa [hchildren] using Silent.of_findIf h.2 rfl rfl
  | binary note op left right | ternary note condition ifTrue ifFalse =>
    simp only [children, List.mem_cons, List.not_mem_nil, or_false, forall_eq_or_imp,
      forall_eq] at hchildren
    simp only [Context.checkExpr, Silent.append_iff] at h
    show note.ty.isError = false
    simpa [hchildren] using Silent.of_findIf h.2 rfl rfl
  | swizzle note base set components =>
    simp only [children, List.mem_singleton, forall_eq] at hchildren
    simp only [Context.checkExpr, Silent.append_iff] at h
    show note.ty.isError = false
    simpa [hchildren] using Silent.of_findIf h.2 rfl rfl
  | field note base name =>
    simp only [children, List.mem_singleton, forall_eq] at hchildren
    simp only [Context.checkExpr, Silent.append_iff] at h
    have := Silent.of_findIf h.2 (by cases base.ty.isStruct <;> rfl)
      (by cases base.ty.isStruct <;> rfl)
    show note.ty.isError = false
    simpa [hchildren] using this
  | _ => cases he

/-- The last of several expressions gives them its type. -/
theorem last_known {es : List Expr} (hne : es ≠ []) (h : ∀ e ∈ es, e.ty.isError = false) :
    ((es.getLast?.map ty).getD .error).isError = false := by
  rw [List.getLast?_eq_some_getLast hne]
  exact h _ (List.getLast_mem hne)

/-- A silent check of a call of a built-in function finds its type. -/
theorem builtinNote_known {loc loc' : Location} {allConst : Bool}
    (h : Silent (c.checkBuiltinCall name args loc)) :
    (n.builtinNote loc' name (args.map ty) allConst).ty.isError = false := by
  have hne : Builtin.matching name (args.map ty) ≠ [] := by
    intro hnil
    unfold Context.checkBuiltinCall at h
    simp only [hnil, List.isEmpty_nil, ↓reduceIte] at h
    exact Silent.not_singleton rfl rfl h
  obtain ⟨f, hf, hknown⟩ := Builtin.chosen?_known n.version hne
  simpa [Names.builtinNote, hf] using hknown

/-- A silent check of a call that no head announces means that no function has the name. -/
theorem forall_name_ne_of_silent {loc : Location} (h : Silent (c.checkUserCall name args loc))
    (hannounced : announced c.functions name (args.map ty) = false) :
    ∀ p ∈ c.functions, p.name ≠ name := by
  intro p hp hname
  have hmem : p ∈ c.functions.filter (·.name == name) := by simp [hp, hname]
  have hnone : (c.functions.filter (·.name == name)).find? (·.parameterTypes == args.map ty)
      = none := by
    rw [List.find?_eq_none]
    intro q hq htypes
    obtain ⟨hq, hqname⟩ := List.mem_filter.mp hq
    exact List.any_eq_false.mp hannounced q hq (Bool.and_eq_true_iff.mpr ⟨hqname, htypes⟩)
  unfold Context.checkUserCall at h
  simp only [hnone] at h
  have := Silent.of_findIf h rfl rfl
  simp_all

/-! ### Whole expressions -/

/-- The nodes of a resolved expression are the nodes of the expression, resolved. -/
theorem exists_of_mem_nodes_resolve {e x : Expr} (h : x ∈ (e.resolve n).nodes) :
    ∃ e' ∈ e.nodes, x = e'.resolve n := by
  induction e using Expr.forall_of_children with
  | h e ih =>
    rw [nodes_eq_cons, children_resolve] at h
    rcases List.mem_cons.mp h with rfl | h
    · exact ⟨e, mem_nodes_self e, rfl⟩
    · obtain ⟨_, hmem, hx⟩ := List.mem_flatMap.mp h
      obtain ⟨c, hc, rfl⟩ := List.mem_map.mp hmem
      obtain ⟨e', he', rfl⟩ := ih c hc hx
      rw [nodes_eq_cons]
      exact ⟨e', List.mem_cons_of_mem e (List.mem_flatMap.mpr ⟨c, hc, he'⟩), rfl⟩

end Expr

end GlslEs
