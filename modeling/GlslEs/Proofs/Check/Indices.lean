import GlslEs.Proofs.Check.Walk
import GlslEs.Proofs.Resolve.Constant
import GlslEs.Proofs.Resolve.Resolved

/-!
# Indices that count as constants

An index counts as a constant if it is made of constants and of loop counters.  Constants are known by
the qualifiers of their symbols, counters by their names alone, so that a variable that is declared in
the body of a loop under the name of its counter is taken for the counter.

* `Expr.isConstantIndex_var`: **the variables of an index that counts as a constant** are constants or
  have the names of counters.
* `Shader.constantIndex_bound_iff`: **what these variables are bound to**.
* `Shader.exists_hidden_counter`: a variable that is taken for a counter.
-/

namespace GlslEs

/-! ### Indices made of constants and counters -/

namespace Expr

variable {n : Names}

theorem areConstantIndices_eq (counters : List String) (es : List Expr) :
    areConstantIndices counters es = es.all (isConstantIndex counters) := by
  induction es with
  | nil => rfl
  | cons e es ih => rw [areConstantIndices, ih, List.all_cons]

/-- An expression that counts as a constant is one, or its operands count as constants; a variable has
the name of a counter. -/
theorem isConstantIndex_cases {counters : List String} {e : Expr}
    (h : e.isConstantIndex counters = true) :
    e.isConst = true ∨ (∀ c ∈ e.children, c.isConstantIndex counters = true) ∧
      ∀ note name, e = .var note name → name ∈ counters := by
  cases e with
  | lit note value => exact .inr (by simp [children])
  | var note name =>
    rw [isConstantIndex, Bool.or_eq_true, List.contains_iff_mem] at h
    exact h.imp_right fun h => by simpa [children] using h
  | call note callee args =>
    cases callee with
    | user f =>
      rw [isConstantIndex] at h
      exact .inl h
    | _ =>
      rw [isConstantIndex, Bool.or_eq_true, areConstantIndices_eq, List.all_eq_true] at h
      · exact h.imp_right fun h => ⟨h, by simp⟩
      · simp
  | assign note op target value | seq note exprs =>
    rw [isConstantIndex] at h
    exact .inl h
  | _ =>
    simp only [isConstantIndex, Bool.or_eq_true, Bool.and_eq_true] at h
    exact h.imp_right fun h => by simp_all [children]

/-- **The variables of an index that counts as a constant are constants or have the names of
counters.** -/
theorem isConstantIndex_var {counters : List String} {e : Expr} (h : e.resolve n = e)
    (hindex : e.isConstantIndex counters = true) {note : Note} {name : String}
    (hx : .var note name ∈ e.nodes) : note.qualifiers.constant = true ∨ name ∈ counters := by
  induction e using forall_of_children with
  | h e ih =>
    rcases isConstantIndex_cases hindex with hconst | ⟨hchildren, hname⟩
    · exact .inl (isConst_nodes h hconst hx)
    · rw [nodes_eq_cons, List.mem_cons, List.mem_flatMap] at hx
      rcases hx with heq | ⟨c, hc, hx⟩
      · exact .inr (hname note name heq.symm)
      · exact ih c hc (resolve_children h hc) (hchildren c hc) hx

end Expr

/-! ### What variables are bound to -/

theorem locate?_eq_some_iff {α : Type} {p : α → Bool} {as : List α} {k : Nat} {a : α} :
    locate? p as = some (k, a) ↔ as.findIdx? p = some k ∧ as[k]? = some a := by
  induction as generalizing k with
  | nil => simp [locate?]
  | cons b as ih => cases hb : p b <;> cases k <;> simp [locate?, hb, List.findIdx?_cons, ih]

/-- Whether a name is that of a counter that has been hidden: since the innermost counter of that name,
something else has been declared under the name. -/
def isHidden (ks : List Counter) (name : String) : Bool :=
  (ks.find? (·.declarator.name == name)).any (·.since.contains name)

namespace Names

/-- Whether a name is bound to a constant. -/
def bindsConst (n : Names) (name : String) : Bool :=
  (n.symbols.find? name).any (·.qualifiers.constant)

/-- Whether a name is bound to a counter: just the symbols declared since stand in between, and the place
is that of the counter's declaration. -/
def bindsCounter (n : Names) (name : String) (k : Counter) : Bool :=
  (n.symbols.locate? name).any fun (distance, s) =>
    distance == k.since.length && s.loc == k.declarator.loc

theorem bindsConst_of_resolve {n : Names} {note : Note} {name : String}
    (h : (Expr.var note name).resolve n = .var note name) : n.bindsConst name = note.qualifiers.constant := by
  rw [Expr.resolve] at h
  cases hs : n.symbols.find? name <;> simp only [hs, Expr.var.injEq, and_true] at h <;>
    rw [bindsConst, hs, ← h] <;> rfl

namespace Tracks

variable {n : Names} {ks : List Counter} {name : String}

/-- What is bound to a counter has the name of the counter. -/
theorem name_of_bindsCounter (h : n.Tracks ks) {k : Counter} (hk : k ∈ ks)
    (hbinds : n.bindsCounter name k = true) : k.declarator.name = name := by
  rw [bindsCounter, Option.any_eq_true] at hbinds
  obtain ⟨⟨d, x⟩, hlocate, hd⟩ := hbinds
  obtain ⟨newer, s, older, hsymbols, hnewer, hsname, -⟩ := h.holds k hk
  have hdistance : d = newer.length := by
    rw [beq_iff_eq.mp (Bool.and_eq_true_iff.mp hd).1, ← hnewer, List.length_map]
  have hs : n.symbols.symbols[d]? = some s := by simp [hsymbols, hdistance]
  have hx : n.symbols.symbols[d]? = some x := (locate?_eq_some_iff.mp hlocate).2
  rw [← hsname, Option.some.inj (hs.symm.trans hx)]
  exact beq_iff_eq.mp (of_locate? hlocate).2

/-- **The name of a counter is bound to a counter exactly if it has not been hidden.** -/
theorem exists_bindsCounter_iff (h : n.Tracks ks) (hname : name ∈ ks.map (·.declarator.name)) :
    (∃ k ∈ ks, n.bindsCounter name k = true) ↔ isHidden ks name = false := by
  obtain ⟨k₀, hk₀⟩ : ∃ k₀, ks.find? (·.declarator.name == name) = some k₀ := by
    obtain ⟨k, hk, hkname⟩ := List.mem_map.mp hname
    rw [← Option.isSome_iff_exists, List.find?_isSome]
    exact ⟨k, hk, beq_iff_eq.mpr hkname⟩
  have hhidden : isHidden ks name = k₀.since.contains name := by rw [isHidden, hk₀]; rfl
  obtain ⟨hname₀, inner, outer, hsplit, hinner⟩ := List.find?_eq_some_iff_append.mp hk₀
  have hmem₀ : k₀ ∈ ks := by simp [hsplit]
  obtain ⟨newer, s, older, hsymbols, hnewer, hsname, hsloc⟩ := h.holds k₀ hmem₀
  have hlength : newer.length = k₀.since.length := by rw [← hnewer, List.length_map]
  have hsince : k₀.since.contains name = true ↔ ∃ x ∈ newer, (x.name == name) = true := by
    rw [← hnewer, List.contains_iff_mem, List.mem_map]
    simp only [beq_iff_eq]
  rw [hhidden, ← Bool.not_eq_true, hsince]
  constructor
  · rintro ⟨k, hk, hbinds⟩ hnew
    -- Among the counters of the name `k₀` is the innermost one.
    have hle : k₀.since.length ≤ k.since.length := by
      have hkname := beq_iff_eq.mpr (h.name_of_bindsCounter hk hbinds)
      have horder := h.order
      rw [hsplit] at hk horder
      rcases List.mem_append.mp hk with hk | hk
      · have hother := hinner k hk
        rw [hkname] at hother
        cases hother
      · rcases List.mem_cons.mp hk with rfl | hk
        · exact Nat.le_refl _
        · exact Nat.le_of_lt ((List.pairwise_cons.mp (List.pairwise_append.mp horder).2.1).1 k hk)
    rw [bindsCounter, Option.any_eq_true] at hbinds
    obtain ⟨⟨d, x⟩, hlocate, hd⟩ := hbinds
    rw [SymbolTable.locate?, hsymbols] at hlocate
    have hdistance := beq_iff_eq.mp (Bool.and_eq_true_iff.mp hd).1
    obtain ⟨i, hi⟩ := Option.isSome_iff_exists.mp (List.findIdx?_isSome.trans (List.any_eq_true.mpr hnew))
    have hlt := (List.findIdx?_eq_some_iff_getElem.mp hi).1
    have hfirst := (locate?_eq_some_iff.mp hlocate).1
    rw [List.findIdx?_append, hi] at hfirst
    cases hfirst
    omega
  · intro hnew
    refine ⟨k₀, hmem₀, ?_⟩
    have hlocate : n.symbols.locate? name = some (newer.length, s) := by
      have hnone : newer.findIdx? (·.name == name) = none :=
        List.findIdx?_eq_none_iff.mpr fun x hx => Bool.eq_false_iff.mpr fun hxname => hnew ⟨x, hx, hxname⟩
      simp [SymbolTable.locate?, hsymbols, locate?_eq_some_iff, List.findIdx?_append, hnone, List.findIdx?_cons,
        hsname, beq_iff_eq.mp hname₀]
    simp [bindsCounter, hlocate, hlength, hsloc]

end Tracks

end Names

/-! ### Indices -/

/-- Whether a node is an index that counts as a constant, with a variable whose name passes a test. -/
def Expr.isConstantIndexWith (counters : List String) (p : String → Bool) : Expr → Bool
  | .index _ _ position => position.isConstantIndex counters && position.nodes.any fun
      | .var _ name => p name
      | _ => false
  | _ => false

theorem Expr.of_isConstantIndexWith {counters : List String} {p : String → Bool} {e : Expr}
    (h : e.isConstantIndexWith counters p = true) :
    ∃ note base position note' name, e = .index note base position ∧
      position.isConstantIndex counters = true ∧ .var note' name ∈ position.nodes ∧ p name = true := by
  unfold isConstantIndexWith at h
  split at h
  · rename_i note base position
    simp only [Bool.and_eq_true, List.any_eq_true] at h
    obtain ⟨hindex, x, hx, hp⟩ := h
    split at hp
    · exact ⟨_, _, _, _, _, rfl, hindex, hx, hp⟩
    · cases hp
  · cases h

/-- Limits under which only constants may be indices of uniform and other variables. -/
def Limits.withConstantIndices : Limits :=
  { Limits.standard with permits := fun p => p ≠ .generalUniformIndexing && p ≠ .generalVariableIndexing }

namespace Shader

open Resolve

variable {s : Shader} {stage : Stage} {limits : Limits}

/-- Whether some expression of a shader has an index that counts as a constant, with a variable whose name
passes a test. -/
def anyConstantIndex (s : Shader) (stage : Stage) (limits : Limits)
    (p : Names → List Counter → String → Bool) : Bool :=
  ((s.checkSites stage limits).zip (((s.sites limits).filter (·.kind == .plain)).zip s.loopSites)).any
    fun x => x.1.expr.nodes.any
      (Expr.isConstantIndexWith x.1.context.counters (p x.2.1.names x.2.2.counters))

theorem of_anyConstantIndex {p : Names → List Counter → String → Bool}
    (h : s.anyConstantIndex stage limits p = true) :
    ∃ (i : Nat) (a : CheckSite) (b : Site) (k : LoopSite), (s.checkSites stage limits)[i]? = some a ∧
      ((s.sites limits).filter (·.kind == .plain))[i]? = some b ∧ s.loopSites[i]? = some k ∧
      ∃ note base position note' name, .index note base position ∈ a.expr.nodes ∧
        position.isConstantIndex a.context.counters = true ∧ .var note' name ∈ position.nodes ∧
        p b.names k.counters name = true := by
  simp only [anyConstantIndex, List.any_eq_true] at h
  obtain ⟨⟨a, b, k⟩, hmem, x, hx, h⟩ := h
  obtain ⟨i, hi⟩ := List.mem_iff_getElem?.mp hmem
  obtain ⟨ha, hbk⟩ := List.getElem?_zip_eq_some.mp hi
  obtain ⟨hb, hk⟩ := List.getElem?_zip_eq_some.mp hbk
  obtain ⟨note, base, position, note', name, rfl, hindex, hvar, hp⟩ := Expr.of_isConstantIndexWith h
  exact ⟨i, a, b, k, ha, hb, hk, note, base, position, note', name, hx, hindex, hvar, hp⟩

/-- **What the variables of an index that counts as a constant are bound to.**  In a shader without a
finding about names, checking passes over the same expressions as resolving.  Where an index counts as a
constant there, each of its variables is bound to a constant or to the counter of a loop around it, unless
it has the name of a counter that has been hidden by a declaration in the body of the loop. -/
theorem constantIndex_bound_iff {source : String} {limits : Limits} {s : Shader} (stage : Stage)
    (h : parse source limits = .ok (s, [])) :
    (s.checkSites stage limits).map (·.expr) = s.loopSites.map (·.expr) ∧
    ((s.sites limits).filter (·.kind == .plain)).map (·.expr) = s.loopSites.map (·.expr) ∧
    ∀ (i : Nat) (a : CheckSite) (b : Site) (k : LoopSite),
      (s.checkSites stage limits)[i]? = some a →
      ((s.sites limits).filter (·.kind == .plain))[i]? = some b → s.loopSites[i]? = some k →
      ∀ (note : Note) (base position : Expr), .index note base position ∈ a.expr.nodes →
        position.isConstantIndex a.context.counters = true →
        ∀ (note : Note) (name : String), .var note name ∈ position.nodes →
          ((b.names.bindsConst name = true ∨ ∃ c ∈ k.counters, b.names.bindsCounter name c = true) ↔
            (b.names.bindsConst name = true ∨ isHidden k.counters name = false)) := by
  have hresolve := resolve_of_parse h
  obtain ⟨stops, hcheck, hplain, hloops, hconsistent⟩ := walked_of_resolve stage hresolve
  have hsites : (s.sites limits).filter (·.kind == .plain) = stops.map Stop.site := hplain
  have hresolved : ∀ x ∈ stops, x.expr.resolve x.names = x.expr := by
    intro x hx
    have hsite : x.site ∈ s.sites limits := List.mem_of_mem_filter (hplain ▸ List.mem_map_of_mem hx)
    exact resolve_expr_of_mem_sites (s := s) (by rwa [hresolve])
  rw [hcheck, hsites, hloops]
  refine ⟨by simp [Stop.checkSite, Stop.loopSite], ?_, ?_⟩
  · rw [List.map_map, List.map_map]
    exact List.map_congr_left fun x hx => (hresolved x hx).symm
  · intro i a b k ha hb hk note base position hindex hconstant note' name hvar
    rw [List.getElem?_map] at ha hb hk
    obtain ⟨x, hx, rfl⟩ := Option.map_eq_some_iff.mp ha
    rw [hx] at hb hk
    obtain rfl := Option.some.inj hb
    obtain rfl := Option.some.inj hk
    obtain ⟨-, hcounts, htracks⟩ := hconsistent x (List.mem_of_getElem? hx)
    have hposition : position.resolve x.names = position :=
      Expr.resolve_children (Expr.resolve_nodes (x.expr.resolve_resolve x.names) hindex) (by simp [Expr.children])
    have hbinds := Names.bindsConst_of_resolve (Expr.resolve_nodes hposition hvar)
    rcases Expr.isConstantIndex_var hposition hconstant hvar with hconst | hname
    · rw [Stop.site, hbinds, hconst]
      simp
    · rw [show x.checkSite.context.counters = _ from hcounts.counters] at hname
      exact or_congr_right (htracks.exists_bindsCounter_iff hname)

/-- The counter of a loop that is used behind the declaration of another variable. -/
theorem constantIndex_bound_iff_counter :
    ∃ s : Shader, parse ("uniform vec4 u[4];void main()\x7bvec4 x;for(int i=0;i<4;i++)\x7b" ++
        "int j=1;x=u[i];\x7d\x7d") .standard = .ok (s, []) ∧
      ∃ b ∈ s.sites .standard, ∃ k ∈ s.loopSites, ∃ c ∈ k.counters,
        c.since = ["j"] ∧ b.names.bindsCounter "i" c = true := by
  obtain ⟨s, hparse, h⟩ := exists_parse
    ("uniform vec4 u[4];void main()\x7bvec4 x;for(int i=0;i<4;i++)\x7b" ++ "int j=1;x=u[i];\x7d\x7d")
    .standard
    (P := fun s => s.anyConstantIndex .fragment .standard fun n ks name =>
      name == "i" && !n.bindsConst name && !isHidden ks name && ks.all (·.since == ["j"]))
    (by decide +kernel)
  obtain ⟨i, a, b, k, ha, hb, hk, note, base, position, note', name, hmem, hindex, hvar, hname⟩ :=
    of_anyConstantIndex h
  simp only [Bool.and_eq_true, Bool.not_eq_true', beq_iff_eq, List.all_eq_true] at hname
  obtain ⟨⟨⟨rfl, hconst⟩, hvisible⟩, hsince⟩ := hname
  have hbound := ((constantIndex_bound_iff .fragment hparse).2.2 i a b k ha hb hk note base position hmem
    hindex note' "i" hvar).mpr (.inr hvisible)
  obtain ⟨c, hc, hbinds⟩ := hbound.resolve_left (by simp [hconst])
  exact ⟨s, hparse, b, List.mem_of_mem_filter (List.mem_of_getElem? hb), k, List.mem_of_getElem? hk, c, hc,
    hsince c hc, hbinds⟩

/-- A variable in the body of a loop that is taken for the counter: its value comes from outside, and
still it counts as a constant where only constants may be indices. -/
theorem exists_hidden_counter :
    ∃ s : Shader, s.Accepted
      ("precision mediump float;uniform vec4 u[4];uniform int n;" ++
        "void main()\x7bvec4 x;for(int i=0;i<4;i++)\x7b\x7bint i=n;x=u[i];\x7d\x7d\x7d")
      .fragment .withConstantIndices ∧
    ∃ (i : Nat) (a : CheckSite) (b : Site) (k : LoopSite),
      (s.checkSites .fragment .withConstantIndices)[i]? = some a ∧
      ((s.sites .withConstantIndices).filter (·.kind == .plain))[i]? = some b ∧
      s.loopSites[i]? = some k ∧
      ∃ note base position note' name, .index note base position ∈ a.expr.nodes ∧
        position.isConstantIndex a.context.counters = true ∧ .var note' name ∈ position.nodes ∧
        ¬ (b.names.bindsConst name = true ∨ ∃ c ∈ k.counters, b.names.bindsCounter name c = true) := by
  refine (exists_accepted (P := fun s => s.anyConstantIndex .fragment .withConstantIndices
    fun n ks name => !n.bindsConst name && !ks.any (n.bindsCounter name)) ?_).imp fun s hs => ⟨hs.1, ?_⟩
  · decide +kernel
  · obtain ⟨i, a, b, k, ha, hb, hk, note, base, position, note', name, hmem, hindex, hvar, hname⟩ :=
      of_anyConstantIndex hs.2
    refine ⟨i, a, b, k, ha, hb, hk, note, base, position, note', name, hmem, hindex, hvar, ?_⟩
    simpa using hname

end Shader

end GlslEs
