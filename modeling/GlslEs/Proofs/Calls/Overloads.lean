import GlslEs.Proofs.Calls.Search
import GlslEs.Proofs.Check.Counter
import GlslEs.Proofs.Check.Local

/-!
# Recursion and overloads

The call graph of a shader has one node for all functions of a name, so a call leads to every overload
of the called name and not only to the one that its arguments select.

* `Shader.CallsName`: what the call graph sees, between functions instead of names.
* `Shader.CallsOverload`: the calls of the selected overloads.
* `Shader.exists_recursion_iff`: recursion is reported exactly if functions call each other in a cycle
  by their names.
* `Shader.recursion_unreported_iff`: **a shader in which no overload reaches itself gets no report
  exactly if no call on a cycle of names selects another overload**.
* `Shader.exists_recursion_overloads`: an overload that calls another one is reported.
-/

namespace GlslEs

/-! ### The call graph of functions -/

namespace CallGraph

variable {fs : List Function} {f h : String}

theorem lookup_map {names : List String} {callees : String → List String} :
    (names.map fun name => (name, callees name)).lookup f =
      if f ∈ names then some (callees f) else none := by
  induction names with
  | nil => rfl
  | cons name names ih =>
    rw [List.map_cons, List.lookup_cons, ih]
    by_cases hname : f = name
    · simp [hname]
    · simp [hname, beq_eq_false_iff_ne.mpr hname]

theorem mem_names : f ∈ (fs.map (·.prototype.name)).eraseDups.mergeSort (fun a b => decide (a ≤ b)) ↔
    ∃ x ∈ fs, x.prototype.name = f := by
  rw [List.mem_mergeSort, List.mem_eraseDups, List.mem_map]

theorem defines_ofFunctions : (ofFunctions fs).defines f = true ↔ ∃ x ∈ fs, x.prototype.name = f := by
  unfold defines ofFunctions
  rw [lookup_map, ← mem_names]
  split <;> simp_all

/-- Names call each other as some functions with these names do. -/
theorem calls_ofFunctions : (ofFunctions fs).Calls f h ↔
    (∃ x ∈ fs, x.prototype.name = f ∧ h ∈ x.calls) ∧ ∃ y ∈ fs, y.prototype.name = h := by
  unfold Calls callees
  rw [List.mem_filter, defines_ofFunctions]
  refine and_congr_left fun _ => ?_
  unfold ofFunctions
  rw [lookup_map]
  by_cases hf : f ∈ (fs.map (·.prototype.name)).eraseDups.mergeSort (fun a b => decide (a ≤ b))
  · simp only [hf, if_true, Option.getD_some, List.mem_eraseDups, List.mem_flatMap, List.mem_filter,
      beq_iff_eq, and_assoc]
  · simp only [hf, if_false, Option.getD_none, List.not_mem_nil, false_iff]
    rintro ⟨x, hx, rfl, -⟩
    exact hf (mem_names.mpr ⟨x, hx, rfl⟩)

end CallGraph

/-! ### Calls between functions -/

/-- Whether the outermost operation of an expression calls a function with a given head. -/
def Expr.selects (p : Prototype) : Expr → Bool
  | .call _ (.user name) args => p.fits name (args.map ty)
  | _ => false

namespace Function

/-- The nodes of all expressions of a function, array lengths included. -/
def allNodes (f : Function) : List Expr :=
  f.body.flatMap fun s => (s.exprs ++ s.lengths).flatMap Expr.nodes

/-- Whether a call in the body of a function selects another function. -/
def selects (f h : Function) : Bool := f.allNodes.any (·.selects h.prototype)

end Function

namespace Shader

variable {s : Shader} {f h : Function}

/-- A function calls the name of another one. -/
def CallsName (s : Shader) (f h : Function) : Prop :=
  f ∈ s.functions ∧ h ∈ s.functions ∧ h.prototype.name ∈ f.calls

/-- A function calls another one, by its name and with arguments of the types of its parameters. -/
def CallsOverload (s : Shader) (f h : Function) : Prop :=
  f ∈ s.functions ∧ h ∈ s.functions ∧ f.selects h = true

/-- The call graph of a shader. -/
def callGraph (s : Shader) : CallGraph := .ofFunctions s.functions

/-- A cycle of names passes through functions that call each other's names. -/
theorem transGen_callsName {a b : String} (hcalls : Relation.TransGen s.callGraph.Calls a b)
    (hh : h ∈ s.functions) (hname : h.prototype.name = b) :
    ∃ f ∈ s.functions, f.prototype.name = a ∧ Relation.TransGen s.CallsName f h := by
  induction hcalls generalizing h with
  | single hab =>
    obtain ⟨⟨f, hf, hfname, hcall⟩, -⟩ := CallGraph.calls_ofFunctions.mp hab
    exact ⟨f, hf, hfname, .single ⟨hf, hh, hname ▸ hcall⟩⟩
  | tail _ hbc ih =>
    obtain ⟨⟨x, hx, hxname, hcall⟩, -⟩ := CallGraph.calls_ofFunctions.mp hbc
    obtain ⟨f, hf, hfname, hrest⟩ := ih hx hxname
    exact ⟨f, hf, hfname, hrest.tail ⟨hx, hh, hname ▸ hcall⟩⟩

/-- On a cycle all of whose calls by name select their functions, functions reach each other by selecting
calls. -/
theorem transGen_callsOverload
    (hselects : ∀ f h, s.CallsName f h → Relation.ReflTransGen s.CallsName h f → s.CallsOverload f h)
    (hfh : Relation.TransGen s.CallsName f h) (hhf : Relation.ReflTransGen s.CallsName h f) :
    Relation.TransGen s.CallsOverload f h := by
  induction hfh with
  | single hab => exact .single (hselects _ _ hab hhf)
  | tail hab hbc ih =>
    exact (ih (.head hbc hhf)).tail (hselects _ _ hbc (hhf.trans hab.to_reflTransGen))

theorem exists_onCycle_iff :
    (∃ a, s.callGraph.OnCycle a) ↔ ∃ f, Relation.TransGen s.CallsName f f := by
  constructor
  · rintro ⟨a, hcycle⟩
    -- The first step is made by a function, and the others can be made to end in this function.
    obtain ⟨b, hab, hba⟩ := Relation.TransGen.head'_iff.mp hcycle
    obtain ⟨⟨f, hf, hfname, hcall⟩, y, hy, hyname⟩ := CallGraph.calls_ofFunctions.mp hab
    rcases Relation.reflTransGen_iff_eq_or_transGen.mp hba with rfl | hba
    · exact ⟨f, .single ⟨hf, hf, hfname ▸ hcall⟩⟩
    · obtain ⟨x, hx, hxname, hxf⟩ := transGen_callsName hba hf hfname
      exact ⟨f, .head ⟨hf, hx, hxname ▸ hcall⟩ hxf⟩
  · rintro ⟨f, hcycle⟩
    refine ⟨f.prototype.name, hcycle.lift (fun x : Function => x.prototype.name) ?_⟩
    rintro x y ⟨hx, hy, hcall⟩
    exact CallGraph.calls_ofFunctions.mpr ⟨⟨x, hx, rfl, hcall⟩, y, hy, rfl⟩

end Shader

/-! ### Reports of recursion -/

theorem Problem.code_eq_recursion_iff {p : Problem} :
    p.code = .recursionNotAllowed ↔ ∃ name, p = .recursion name := by
  constructor
  · intro h
    cases p with
    | recursion name => exact ⟨name, rfl⟩
    | loop p => cases p <;> cases h
    | _ => cases h
  · rintro ⟨name, rfl⟩
    rfl

namespace Context

variable {c : Context} {x : Finding}

/-- The findings about calls that are about recursion. -/
theorem mem_checkCalls_iff {s : Shader} {name : String} :
    (∃ loc, ⟨.recursion name, loc⟩ ∈ c.checkCalls s) ↔ name ∈ s.callGraph.recursive := by
  unfold checkCalls
  simp only [List.mem_append, List.mem_map]
  constructor
  · rintro ⟨loc, ⟨f, hf, heq⟩ | hx⟩
    · cases heq
      exact hf
    · split at hx
      · cases exceeds_of_mem_exceeding hx
      · cases hx
  · intro hname
    exact ⟨_, .inl ⟨name, hname, rfl⟩⟩

end Context

namespace Shader

variable {s : Shader}

/-- **Recursion is reported exactly if functions call each other in a cycle by their names.** -/
theorem exists_recursion_iff (s : Shader) (stage : Stage) (limits : Limits) :
    (∃ d ∈ s.check stage limits, d.code = .recursionNotAllowed) ↔
      ∃ f, Relation.TransGen s.CallsName f f := by
  rw [← exists_onCycle_iff, ← CallGraph.recursive_ne_nil_iff]
  obtain ⟨fs, hlocal, hfindings⟩ := s.exists_findings_eq stage limits
  constructor
  · rintro ⟨d, hd, hcode⟩
    obtain ⟨⟨problem, loc⟩, hx, rfl⟩ := List.mem_map.mp (Diagnostic.mem_sort.mp hd)
    obtain ⟨name, rfl⟩ := Problem.code_eq_recursion_iff.mp hcode
    have hfound := Finding.mem_of_mem_withoutRepeats hx
    rw [hfindings, List.mem_append, List.mem_append] at hfound
    rcases hfound with (hfound | hfound) | hfound
    · cases hlocal _ hfound
    · obtain ⟨_, _, _, hp⟩ := Context.exceeds_of_mem_checkLoads hfound
      cases hp
    · exact List.ne_nil_of_mem (Context.mem_checkCalls_iff.mp ⟨loc, hfound⟩)
  · intro hne
    obtain ⟨name, hname⟩ := List.exists_mem_of_ne_nil _ hne
    obtain ⟨loc, hx⟩ := Context.mem_checkCalls_iff.mpr hname
    have hfound := hfindings ▸ List.mem_append_right _ hx
    exact ⟨_, Diagnostic.mem_sort.mpr (List.mem_map_of_mem (Finding.mem_withoutRepeats rfl hfound)), rfl⟩

/-- **Recursion and overloads.**  If no function reaches itself by calls that select functions, then
recursion is not reported exactly if no call by name on a cycle of such calls selects another
function. -/
theorem recursion_unreported_iff (stage : Stage) (limits : Limits)
    (hacyclic : ∀ f, ¬ Relation.TransGen s.CallsOverload f f) :
    (∀ d ∈ s.check stage limits, d.code ≠ .recursionNotAllowed) ↔
      ∀ f h, s.CallsName f h → Relation.ReflTransGen s.CallsName h f → s.CallsOverload f h := by
  have hreported := s.exists_recursion_iff stage limits
  constructor
  · intro hsilent f h hfh hhf
    obtain ⟨d, hd, hcode⟩ := hreported.mpr ⟨f, .head' hfh hhf⟩
    exact absurd hcode (hsilent d hd)
  · intro hselects d hd hcode
    obtain ⟨f, hcycle⟩ := hreported.mp ⟨d, hd, hcode⟩
    exact hacyclic f (transGen_callsOverload hselects hcycle .refl)

/-- A relation that leads to functions further up in the text has no cycle. -/
theorem acyclic_of_offset_lt {r : Function → Function → Prop}
    (hr : ∀ f h, r f h → h.prototype.loc.offset < f.prototype.loc.offset) (f : Function) :
    ¬ Relation.TransGen r f f := by
  have hlt : ∀ {f h}, Relation.TransGen r f h → h.prototype.loc.offset < f.prototype.loc.offset := by
    intro f h hfh
    induction hfh with
    | single hab => exact hr _ _ hab
    | tail _ hbc ih => exact (hr _ _ hbc).trans ih
  exact fun hcycle => lt_irrefl _ (hlt hcycle)

/-- Two overloads, both called. -/
theorem recursion_unreported_iff_overloads :
    ∃ s : Shader, parse "void f(int a)\x7b\x7dvoid f(float a)\x7b\x7dvoid main()\x7bf(1);f(1.);\x7d"
        .standard = .ok (s, []) ∧
      (∀ f, ¬ Relation.TransGen s.CallsOverload f f) ∧
      ∀ d ∈ s.check .vertex .standard, d.code ≠ .recursionNotAllowed := by
  obtain ⟨s, hparse, hup⟩ := exists_parse
    "void f(int a)\x7b\x7dvoid f(float a)\x7b\x7dvoid main()\x7bf(1);f(1.);\x7d" .standard
    (P := fun s => s.functions.all fun f => s.functions.all fun h =>
      !(f.selects h || f.calls.contains h.prototype.name) ||
        decide (h.prototype.loc.offset < f.prototype.loc.offset)) (by decide +kernel)
  simp only [List.all_eq_true, Bool.or_eq_true, Bool.not_eq_true', Bool.or_eq_false_iff,
    List.contains_eq_mem, decide_eq_false_iff_not, decide_eq_true_eq] at hup
  have hacyclic : ∀ f, ¬ Relation.TransGen s.CallsOverload f f := acyclic_of_offset_lt
    fun f h ⟨hf, hh, hselects⟩ => (hup f hf h hh).resolve_left fun hno => by simp [hselects] at hno
  have hnames : ∀ f, ¬ Relation.TransGen s.CallsName f f := acyclic_of_offset_lt
    fun f h ⟨hf, hh, hname⟩ => (hup f hf h hh).resolve_left fun hno => hno.2 hname
  refine ⟨s, hparse, hacyclic, (recursion_unreported_iff .vertex .standard hacyclic).mpr ?_⟩
  exact fun f h hfh hhf => absurd (.head' hfh hhf) (hnames f)

/-- An overload that calls another one of its name is reported as recursive. -/
theorem exists_recursion_overloads :
    ∃ s : Shader, parse "void f(int a)\x7b\x7dvoid f(float a)\x7bf(1);\x7dvoid main()\x7bf(1.);\x7d"
        .standard = .ok (s, []) ∧
      (∀ f, ¬ Relation.TransGen s.CallsOverload f f) ∧
      ∃ d ∈ s.check .vertex .standard, d.code = .recursionNotAllowed := by
  obtain ⟨s, hparse, h⟩ := exists_parse
    "void f(int a)\x7b\x7dvoid f(float a)\x7bf(1);\x7dvoid main()\x7bf(1.);\x7d" .standard
    (P := fun s => (s.functions.all fun f => s.functions.all fun h =>
        !f.selects h || decide (h.prototype.loc.offset < f.prototype.loc.offset)) &&
      s.functions.any fun f => f.calls.contains f.prototype.name) (by decide +kernel)
  simp only [Bool.and_eq_true, List.all_eq_true, List.any_eq_true, Bool.or_eq_true, Bool.not_eq_true',
    List.contains_eq_mem, decide_eq_true_eq] at h
  obtain ⟨hup, f, hf, hself⟩ := h
  refine ⟨s, hparse, acyclic_of_offset_lt fun f h ⟨hf, hh, hselects⟩ => ?_,
    (s.exists_recursion_iff .vertex .standard).mpr ⟨f, .single ⟨hf, hf, hself⟩⟩⟩
  exact (hup f hf h hh).resolve_left fun hno => by simp [hselects] at hno

end Shader

end GlslEs
