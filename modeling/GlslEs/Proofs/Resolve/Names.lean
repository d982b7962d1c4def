import GlslEs.Proofs.Tree
import GlslEs.Resolve.Shader
import Mathlib.Data.List.Basic

/-!
# Names whose types are known

While a shader is resolved, `Names` grows.  `Names.Sound` says that the types in it are known, with
one exception: a variable in the list `unsized` may have the type `error`.  The functions in it are
those that the function heads in `heads` announce.

* `SymbolTable.symbols`: all symbols of a table.
* `Names.Sound.find?`, `Names.Sound.overload?`: what looking up a name or a function gives.
-/

namespace GlslEs

/-! ### Symbol tables -/

namespace SymbolTable

variable {t : SymbolTable} {s : Symbol}

/-- All symbols of a table. -/
def symbols (t : SymbolTable) : List Symbol :=
  t.frames.flatMap (·.symbols) ++ t.globals ++ t.builtins

theorem mem_symbols :
    s ∈ t.symbols ↔ (∃ frame ∈ t.frames, s ∈ frame.symbols) ∨ s ∈ t.globals ∨ s ∈ t.builtins := by
  simp [symbols]

theorem mem_symbols_of_find? {name : String}
    (h : t.find? name = some s) : s ∈ t.symbols ∧ s.name = name := by
  unfold find? at h
  obtain ⟨frame, hframe, hs⟩ := List.exists_of_findSome?_eq_some h
  have hmem : s ∈ frame := List.mem_of_find?_eq_some hs
  have hname : s.name = name := by simpa using List.find?_some hs
  refine ⟨mem_symbols.mpr ?_, hname⟩
  simp only [List.mem_append, List.mem_map, List.mem_cons, List.not_mem_nil, or_false] at hframe
  rcases hframe with ⟨f, hf, rfl⟩ | rfl | rfl
  · exact .inl ⟨f, hf, hmem⟩
  · exact .inr (.inl hmem)
  · exact .inr (.inr hmem)

@[simp]
theorem symbols_enter (t : SymbolTable) (kind : ScopeKind) : (t.enter kind).symbols = t.symbols := by
  simp [symbols, enter]

theorem mem_symbols_of_mem_insert {x : Symbol} (h : x ∈ (t.insert s).symbols) :
    x = s ∨ x ∈ t.symbols := by
  rw [mem_symbols] at h ⊢
  unfold insert at h
  split at h
  · rename_i hframes
    simp only [hframes, List.mem_cons] at h ⊢
    grind
  · rename_i frame frames hframes
    simp only [hframes, List.mem_cons, exists_eq_or_imp] at h ⊢
    grind

end SymbolTable

/-! ### Functions -/

namespace Prototype

/-- Whether a head announces a function with a name and parameters of the given types. -/
def announces (p : Prototype) (name : String) (types : List Ty) : Bool :=
  p.name == name && p.parameterTypes == types

end Prototype

/-- Whether one of several heads announces a function with a name and parameters of the given
types. -/
def announced (heads : List Prototype) (name : String) (types : List Ty) : Bool :=
  heads.any (·.announces name types)

/-- The type of a symbol is known, but for the variables in `unsized`. -/
def Symbol.Sized (unsized : List String) (s : Symbol) : Prop :=
  s.ty.isError = true → s.name ∈ unsized ∧ s.ty = .error

namespace Names

/-- The functions with a name and parameters of the given types. -/
def hasOverload (n : Names) (name : String) (types : List Ty) : Bool :=
  n.functions.any fun f => f.name == name && f.parameters == types

/-- The types of names are known, but for the variables in `unsized`, and the functions are those
that `heads` announce. -/
structure Sound (unsized : List String) (heads : List Prototype) (n : Names) : Prop where
  symbols : ∀ s ∈ n.symbols.symbols, s.Sized unsized
  results : ∀ f ∈ n.functions, f.result.isError = false
  overloads : ∀ name types, n.hasOverload name types = announced heads name types

namespace Sound

variable {unsized : List String} {heads : List Prototype} {n : Names} {name : String} {types : List Ty}

/-- A name that is found has a known type or is one of the exceptions. -/
theorem find? (h : n.Sound unsized heads) {s : Symbol}
    (hs : n.symbols.find? name = some s) (herror : s.ty.isError = true) : name ∈ unsized ∧ s.ty = .error := by
  obtain ⟨hmem, rfl⟩ := SymbolTable.mem_symbols_of_find? hs
  exact h.symbols s hmem herror

/-- What overload resolution finds has a known result. -/
theorem overload? (h : n.Sound unsized heads) (hannounced : announced heads name types = true) :
    ∃ f, (n.overloads name).find? (·.parameters == types) = some f ∧ f.result.isError = false := by
  rw [← h.overloads, hasOverload, List.any_eq_true] at hannounced
  obtain ⟨f, hf, hmatch⟩ := hannounced
  obtain ⟨hname, htypes⟩ := Bool.and_eq_true_iff.mp hmatch
  have hmem : f ∈ n.overloads name := List.mem_filter.mpr ⟨hf, hname⟩
  cases hfind : (n.overloads name).find? (·.parameters == types) with
  | none => exact absurd htypes (by simpa using List.find?_eq_none.mp hfind f hmem)
  | some g =>
    have hg : g ∈ n.overloads name := List.mem_of_find?_eq_some hfind
    exact ⟨g, rfl, h.results g (List.mem_filter.mp hg).1⟩

/-- What no head announces, overload resolution does not find. -/
theorem overload?_eq_none (h : n.Sound unsized heads) (hannounced : announced heads name types = false) :
    (n.overloads name).find? (·.parameters == types) = none := by
  rw [← h.overloads, hasOverload, List.any_eq_false] at hannounced
  rw [List.find?_eq_none]
  intro f hf htypes
  obtain ⟨hmem, hname⟩ := List.mem_filter.mp hf
  exact hannounced f hmem (Bool.and_eq_true_iff.mpr ⟨hname, htypes⟩)

/-- A head announces every function there is. -/
theorem exists_head (h : n.Sound unsized heads) (hname : n.hasFunction name = true) :
    ∃ p ∈ heads, p.name = name := by
  obtain ⟨f, hf, hfname⟩ := List.any_eq_true.mp hname
  have hoverload : n.hasOverload name f.parameters = true :=
    List.any_eq_true.mpr ⟨f, hf, by simpa using hfname⟩
  rw [h.overloads] at hoverload
  obtain ⟨p, hp, hmatch⟩ := List.any_eq_true.mp hoverload
  exact ⟨p, hp, by simpa using (Bool.and_eq_true_iff.mp hmatch).1⟩

/-- The functions decide all but what is known of symbols. -/
theorem of_functions (h : n.Sound unsized heads) {m : Names} (hfunctions : m.functions = n.functions)
    (hsymbols : ∀ s ∈ m.symbols.symbols, s.Sized unsized) : m.Sound unsized heads where
  symbols := hsymbols
  results := hfunctions ▸ h.results
  overloads name types := by rw [← h.overloads, hasOverload, hasOverload, hfunctions]

end Sound

end Names

/-! ### Lists of expressions -/

theorem Resolve.map_eq_self_iff {α : Type} {as : List α} {f : α → α} : as.map f = as ↔ ∀ a ∈ as, f a = a := by
  simpa using List.map_inj_left (l := as) (f := f) (g := id)

namespace Expr

theorem resolveAll_eq_map (n : Names) (es : List Expr) : resolveAll n es = es.map (resolve n) := by
  induction es with
  | nil => rfl
  | cons e es ih => rw [resolveAll, ih, List.map_cons]

theorem nameFindingsAll_eq_flatMap (n : Names) (es : List Expr) :
    nameFindingsAll n es = es.flatMap (nameFindings n) := by
  induction es with
  | nil => rfl
  | cons e es ih => rw [nameFindingsAll, ih, List.flatMap_cons]

/-- Resolving an expression resolves its operands. -/
theorem children_resolve (n : Names) (e : Expr) :
    (e.resolve n).children = e.children.map (resolve n) := by
  cases e with
  | lit note value => rfl
  | var note name | field note base name =>
    rw [resolve]
    split <;> rfl
  | call note callee args | seq note exprs =>
    rw [resolve, resolveAll_eq_map]
    rfl
  | _ => rfl

theorem resolve_children {n : Names} {e c : Expr} (h : e.resolve n = e) (hc : c ∈ e.children) :
    c.resolve n = c := by
  have hchildren := children_resolve n e
  rw [h] at hchildren
  exact Resolve.map_eq_self_iff.mp hchildren.symm c hc

/-- The name of a node is declared. -/
def Declared (n : Names) : Expr → Prop
  | .var _ name => ∃ s, n.symbols.find? name = some s
  | .call _ (.user name) _ => n.hasFunction name = true ∨ Builtin.isFunction name = true
  | _ => True

/-- No name is missing exactly if those of all nodes are declared. -/
theorem nameFindings_eq_nil {n : Names} {e : Expr} : e.nameFindings n = [] ↔ ∀ x ∈ e.nodes, x.Declared n := by
  have hstep : ∀ e : Expr, e.nameFindings n = [] ↔ e.Declared n ∧ ∀ c ∈ e.children, c.nameFindings n = [] := by
    intro e
    cases e with
    | call note callee args =>
      cases callee <;> simp [nameFindings, nameFindingsAll_eq_flatMap, Declared, children]
      grind
    | _ => simp [nameFindings, nameFindingsAll_eq_flatMap, Declared, children, Option.isSome_iff_exists]
  induction e using forall_of_children with
  | h e ih => rw [hstep, forall_mem_nodes, forall₂_congr ih]

end Expr

end GlslEs
