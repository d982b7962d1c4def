import GlslEs.Proofs.Mangle.Binding

/-!
# New names are apart

No new name is one that a walk has to leave as it is, no two functions and no two symbols of a function get
one name, and no declaration of a symbol is left without one.

* `Mangle.otherNames_walk`: **a walk notices the names that a declaration keeps.**
* `Mangle.Renews`: a declaration and the same one with new names.
* `Shader.mangle_apart`: **new names are apart from each other and from all that stay.**
-/

namespace GlslEs

/-- **A walk notices the names that a declaration keeps.** -/
theorem Mangle.otherNames_walk (plan : WalkPlan) (d : TopLevel) :
    otherNames (walk plan d) = d.kept plan.functions := by
  have hempty : ({} : Walk).InScope [] := fun x => Iff.rfl
  cases d with
  | function f =>
    have h := (Walking.numbers_function f).others plan hempty
    rw [List.append_nil] at h
    exact h
  | globals d =>
    have hone (ys : List String) (x : Declarator) : Walking.Numbers ys (Walking.globalDeclarator x)
        (fun _ => ys ++ []) [] (fun fs bound => x.kept fs bound) [] :=
      (Walking.numbers_array x.array).bind (fun length => (Walking.numbers_option x.value).map
        (fun value => ({ x with array := length, value := value } : Declarator)) fun _ => List.append_nil ys)
        (fun _ _ => rfl) fun _ _ _ _ => rfl
    refine ((@Walking.numbers_mapM _ _ [] _ _ _ _ _ hone d.declarators).others plan hempty).trans ?_
    show keptAlong (Declarator.kept plan.functions) (fun _ => []) [] d.declarators = d.declarators.flatMap _
    induction d.declarators with
    | nil => rfl
    | cons x xs ih => rw [keptAlong, List.append_nil, ih, List.flatMap_cons]
  | _ => rfl

/-! ### New names -/

/-- A name that nothing in a shader has that keeps its name, and that has no meaning of its own. -/
structure Shader.Spares (s : Shader) (x : String) : Prop where
  ne_main : x ≠ "main"
  global : ∀ d ∈ s.declarations, x ∉ Mangle.globalNames d
  kept : ∀ d ∈ s.declarations, x ∉ d.kept (Mangle.functionNames s)
  notWord : x ∉ ShortName.reservedWords
  notReserved : ¬"gl_".toList <+: x.toList
  notDouble : ¬"__".toList <:+: x.toList

theorem Lexer.hasDoubleUnderscore_append (cs ds : List Char) :
    hasDoubleUnderscore (cs ++ '_' :: '_' :: ds) = true := by
  induction cs with
  | nil => rfl
  | cons c cs ih =>
    rw [List.cons_append]
    unfold hasDoubleUnderscore
    split
    · rfl
    · rename_i heq
      rw [← (List.cons.inj heq).2]
      exact ih
    · contradiction

/-- Where all numbers have names, these are given one by one. -/
theorem Naming.getElem?_given {ν : Naming} {id i : Nat} {names : List String} (hi : i < names.length)
    (h : ∃ x, ν.symbols.lookup (id + i) = some x) : (ν.given id names)[i]? = ν.symbols.lookup (id + i) := by
  induction names generalizing id i with
  | nil => cases hi
  | cons name names ih =>
    cases i with
    | zero =>
      obtain ⟨x, hx⟩ := h
      rw [Nat.add_zero] at hx ⊢
      rw [given, List.getElem?_cons_zero, hx]
      rfl
    | succ i =>
      rw [Nat.add_comm i, ← Nat.add_assoc] at h ⊢
      rw [given, Nat.add_comm 1, List.getElem?_cons_succ]
      exact ih (Nat.lt_of_succ_lt_succ hi) h

theorem Naming.length_given (ν : Naming) (id : Nat) (names : List String) :
    (ν.given id names).length = names.length := by
  induction names generalizing id with
  | nil => rfl
  | cons name names ih => rw [given, List.length_cons, ih, List.length_cons]

namespace Mangle

variable {s : Shader} {taken : List String} {x : String}

theorem kept_subset_keptNames {d : TopLevel} (hd : d ∈ s.declarations) :
    ∀ x ∈ d.kept (functionNames s), x ∈ keptNames s := by
  intro x hx
  refine List.mem_append_right _ (List.mem_flatMap.mpr ⟨_, List.mem_map_of_mem hd, ?_⟩)
  rw [otherNames_walk]
  exact hx

theorem spares_of_isUsable (h : ShortName.isUsable taken x = true) (hkept : keptNames s ⊆ taken) : s.Spares x := by
  have htaken : x ∉ keptNames s := fun hx => not_mem_of_isUsable h (hkept hx)
  simp only [ShortName.isUsable, Bool.and_eq_true, Bool.not_eq_true', List.contains_eq_mem,
    decide_eq_false_iff_not] at h
  obtain ⟨⟨⟨hreserved, hdouble⟩, hword⟩, -⟩ := h
  refine ⟨fun hmain => htaken (hmain ▸ main_mem_keptNames s),
    fun d hd hx => htaken (globalNames_subset_keptNames hd x hx),
    fun d hd hx => htaken (kept_subset_keptNames hd x hx), hword, fun hgl => ?_, ?_⟩
  · rw [List.isPrefixOf_iff_prefix.mpr hgl] at hreserved
    cases hreserved
  · rintro ⟨cs, ds, hinfix⟩
    rw [← hinfix, List.append_assoc] at hdouble
    have htrue : Lexer.hasDoubleUnderscore (cs ++ ("__".toList ++ ds)) = true :=
      Lexer.hasDoubleUnderscore_append cs ds
    rw [htrue] at hdouble
    cases hdouble

/-- The new name of a function; the main function has none. -/
def newName (s : Shader) (f : String) : String := Naming.function ⟨[], newNames s⟩ f

/-- The plan of the walk that gives a function its new names. -/
def renewPlan (s : Shader) (f : Function) : WalkPlan :=
  ⟨functionNames s, ⟨ShortName.assign (keptNames s ++ (newNames s).map (·.2))
    (symbolUses (walk ⟨functionNames s, {}⟩ (.function f))), newNames s⟩⟩

/-- A declaration of a shader, and the same one with new names: those of functions, and those that the
symbols of a function have by their numbers, which are the numbers they are found under. -/
structure Renews (s : Shader) (d d' : TopLevel) : Prop where
  head : d'.head?.map (·.name) = d.head?.map fun p => newName s p.name
  symbols : ∀ f, d = .function f → ∃ f', d' = .function f' ∧
    Walking.run (Walking.function f) (renewPlan s f) = (f', walk ⟨functionNames s, {}⟩ d) ∧
    f'.declared.length = f.declared.length ∧
    (∀ i < f.declared.length, f'.declared[i]? = (renewPlan s f).naming.symbols.lookup i) ∧
    f'.declared.Nodup ∧ ∀ x ∈ f'.declared, s.Spares x ∧ ∀ g ∈ functionNames s, x ≠ newName s g

theorem declared_renew (s : Shader) (f : Function) :
    (Walking.run (Walking.function f) (renewPlan s f)).1.declared = (renewPlan s f).naming.given 0 f.declared :=
  (Walking.numbers_function f).given (renewPlan s f) {}

/-- Every symbol gets the name of its number. -/
theorem exists_given (s : Shader) (f : Function) {i : Nat} (hi : i < f.declared.length) :
    ∃ x, (renewPlan s f).naming.symbols.lookup i = some x ∧
      ((renewPlan s f).naming.given 0 f.declared)[i]? = some x := by
  obtain ⟨x, hx⟩ := (fits_symbols s f).exists_name i hi
  have hgiven := @Naming.getElem?_given (renewPlan s f).naming 0 i f.declared hi ⟨x, by rwa [Nat.zero_add]⟩
  rw [Nat.zero_add] at hgiven
  exact ⟨x, hx, hgiven.trans hx⟩

theorem nodup_given (s : Shader) (f : Function) : ((renewPlan s f).naming.given 0 f.declared).Nodup := by
  rw [List.nodup_iff_getElem?_ne_getElem?]
  intro i j hij hj heq
  rw [Naming.length_given] at hj
  obtain ⟨x, hx, hi⟩ := exists_given s f (hij.trans hj)
  obtain ⟨y, hy, hj⟩ := exists_given s f hj
  rw [hi, hj] at heq
  rw [← Option.some.inj heq] at hy
  exact hij.ne ((fits_symbols s f).injective hx hy)

theorem isUsable_given (s : Shader) (f : Function) (hx : x ∈ (renewPlan s f).naming.given 0 f.declared) :
    ShortName.isUsable (keptNames s ++ (newNames s).map (·.2)) x = true := by
  obtain ⟨i, hi, hget⟩ := List.mem_iff_getElem.mp hx
  obtain ⟨y, hy, hgiven⟩ := exists_given s f (Naming.length_given .. ▸ hi)
  rw [List.getElem?_eq_getElem hi, hget] at hgiven
  rw [Option.some.inj hgiven]
  exact ShortName.isUsable_of_mem_assign (ShortName.mem_of_lookup hy)

theorem renews (s : Shader) (d : TopLevel) : Renews s d (renew s d) where
  head := by cases d <;> rfl
  symbols f hf := by
    subst hf
    refine ⟨(Walking.run (Walking.function f) (renewPlan s f)).1, rfl,
      Prod.ext rfl ((Walking.numbers_function f).same (renewPlan s f) {}), ?_⟩
    rw [declared_renew]
    refine ⟨Naming.length_given .., fun i hi => ?_, nodup_given s f, fun x hx => ?_⟩
    · obtain ⟨x, hx, hgiven⟩ := exists_given s f hi
      exact hgiven.trans hx.symm
    · have husable := isUsable_given s f hx
      refine ⟨spares_of_isUsable husable fun _ hx => List.mem_append_left _ hx, fun g hg heq => ?_⟩
      obtain ⟨new, hnew, hmem⟩ := exists_new hg
      refine not_mem_of_isUsable husable (List.mem_append_right _ (List.mem_map.mpr ⟨_, hmem, ?_⟩))
      rw [heq, newName, hnew]

end Mangle

namespace Shader

open Mangle

/-- **New names are apart**: the functions have names of their own, and so have the parameters and variables of
a function, which also differ from those of all functions; every symbol gets the name of its number, which is
the number that it is found under; and no new name is the name of anything that keeps it. -/
theorem mangle_apart (s : Shader) :
    (∀ f ∈ functionNames s, (f, newName s f) ∈ newNames s ∧ s.Spares (newName s f)) ∧
      (∀ f ∈ functionNames s, ∀ g ∈ functionNames s, newName s f = newName s g → f = g) ∧
      newName s "main" = "main" ∧ List.Forall₂ (Renews s) s.declarations s.mangle.1.declarations := by
  refine ⟨fun f hf => ?_, fun f hf g hg h => new_injective (List.mem_cons_of_mem _ hf)
    (List.mem_cons_of_mem _ hg) h, function_main s, ?_⟩
  · obtain ⟨new, hnew, hmem⟩ := exists_new hf
    rw [newName, hnew]
    exact ⟨hmem, spares_of_isUsable (isUsable_functionNaming hmem) fun _ hx => hx⟩
  · rw [mangle_fst, List.forall₂_map_right_iff]
    exact List.forall₂_same.mpr fun d _ => renews s d

end Shader

end GlslEs
