import GlslEs.Proofs.Mangle.Outside

/-!
# Renamed declarations

Outside of functions a declaration keeps its names, and only the functions that are called in it get new
ones.

* `Scheme.Keeps`: what holds of a renamed declaration.
* `Scheme.Beside.globals`, `Scheme.Beside.block`, `Scheme.Beside.prototype`: **it holds of declarations
  without a body.**
-/

namespace GlslEs

open Resolve

namespace Scheme

variable {c : Scheme} {n m : Names}

/-- The renamed declaration is settled, its names refer to the same declarations, and the places behind
it fit together. -/
structure Keeps (c : Scheme) (d d' : TopLevel) (n m : Names) : Prop where
  settled : Settled topLevel m d'
  bindings : siteBindings (d'.sites m) = siteBindings (d.sites n)
  beside : c.Beside (after (topLevel d) n) (after (topLevel d') m)

/-! ### Variables -/

/-- Places outside of functions fit together in front of variables that keep their names. -/
structure Before (c : Scheme) (ds : List Declarator) (n : Names) (w : Walk) (m : Names) : Prop where
  beside : c.Beside n m
  scopes : w.scopes = .empty
  taken : ∀ d ∈ ds, d.name ∈ c.taken

end Scheme

namespace Walking

/-- Walks over one variable outside of functions. -/
def globalDeclarator (x : Declarator) : Walking Declarator := do
  let length ← array x.array
  let value ← x.value.mapM expr
  return { x with array := length, value }

theorem globalDeclarator_eq (plan : WalkPlan) (w : Walk) (x : Declarator) :
    ∃ seen, globalDeclarator x plan w =
      (x.rename plan.naming w.scopes x.name, ⟨w.scopes, w.next, seen⟩) := by
  obtain ⟨seen, harray⟩ := array_state plan w x.array
  obtain ⟨seen', hvalue⟩ := option_state plan ⟨w.scopes, w.next, seen⟩ x.value
  have hrun : globalDeclarator x plan w =
      ({ x with
          array := (array x.array plan w).1
          value := (x.value.mapM expr plan (array x.array plan w).2).1 },
        (x.value.mapM expr plan (array x.array plan w).2).2) := rfl
  rw [hrun, array_value, harray, option_value, hvalue]
  exact ⟨seen', rfl⟩

end Walking

namespace Scheme

variable {c : Scheme} {n m : Names}

theorem carrier (c : Scheme) (functions : List String) :
    Carrier ⟨functions, ⟨[], c.naming⟩⟩ Walking.globalDeclarator c.Before where
  types h := h.beside.types
  fixed h := h.beside.carried_fixed
  notice _ h := ⟨h.beside, h.scopes, h.taken⟩
  withStruct name ms h := ⟨h.beside.withStruct name ms, h.scopes, h.taken⟩
  declarator {q ty d ds n w m} h hd := by
    obtain ⟨htaken, hrest⟩ := List.forall_mem_cons.mp h.taken
    obtain ⟨seen, hwalk⟩ := Walking.globalDeclarator_eq ⟨functions, ⟨[], c.naming⟩⟩ w d
    have haccepts : m.accepts { n.symbolOf q d with name := d.name } = true :=
      h.beside.accepts (settled_declarator.mp hd).2.2.2 htaken
    obtain ⟨hsettled, hbindings, hafter⟩ := h.beside.carries.declarator hd haccepts
    rw [hwalk, h.scopes, after_declarator hd, hafter]
    exact ⟨hsettled, hbindings, h.beside.insert htaken, rfl, hrest⟩

namespace Beside

theorem before (h : c.Beside n m) : c.Before [] n {} m := ⟨h, rfl, by simp⟩

/-- Variables outside of functions keep their names. -/
theorem globals (h : c.Beside n m) (functions : List String) {d : Declaration}
    (hd : Settled topLevel n (.globals d))
    (hfixed : ∀ s ∈ (TopLevel.globals d).sites n, s.isFixed ⟨[], c.naming⟩ = true)
    (htaken : ∀ x ∈ Mangle.globalNames (.globals d), x ∈ c.taken) :
    c.Keeps (.globals d)
      (.globals (Walking.run (Walking.globalDeclaration d) ⟨functions, ⟨[], c.naming⟩⟩).1) n m := by
  have hbefore : c.Before d.declarators n {} m :=
    ⟨h, rfl, fun x hx => htaken x.name (List.mem_append_right _ (List.mem_map_of_mem hx))⟩
  obtain ⟨hsettled, hbindings, hbehind⟩ :=
    (c.carrier functions).declaration hbefore (settled_globals.mp hd) hfixed ⟨[], rfl⟩
  exact ⟨settled_globals.mpr hsettled, hbindings, hbehind.beside⟩

/-! ### Structures and blocks -/

/-- A structure stays as it is. -/
theorem struct (h : c.Beside n m) {d : StructDef} (hd : Settled topLevel n (.struct d))
    (hfixed : ∀ s ∈ (TopLevel.struct d).sites n, s.isFixed ⟨[], c.naming⟩ = true) :
    c.Keeps (.struct d) (.struct d) n m := by
  obtain ⟨hsettled, hbindings, hbehind⟩ := (c.carrier []).struct h.before
    (settled_optionMapM_some.mpr (settled_struct.mp hd)) (by simpa [TopLevel.sites] using hfixed)
  refine ⟨settled_struct.mpr (settled_optionMapM_some.mp hsettled), ?_, hbehind.beside⟩
  simpa [TopLevel.sites] using hbindings

/-- A block stays as it is. -/
theorem block (h : c.Beside n m) {b : InterfaceBlock} (hb : Settled topLevel n (.block b))
    (hfixed : ∀ s ∈ (TopLevel.block b).sites n, s.isFixed ⟨[], c.naming⟩ = true)
    (htaken : ∀ x ∈ Mangle.globalNames (.block b), x ∈ c.taken) : c.Keeps (.block b) (.block b) n m := by
  obtain ⟨hmembers, hlengths, hdeclare⟩ := settled_interfaceBlock.mp (settled_top_block.mp hb)
  have hsame := map_member_of_settled hmembers
  rw [TopLevel.sites, ← lengthExprs_blockLength?, hsame] at hfixed
  obtain ⟨hmembers', hbindings⟩ :=
    (c.carrier []).members h.before hmembers fun s hs => hfixed s (List.mem_append_left _ hs)
  have hbeside := h.withStruct b.name b.members
  obtain ⟨hlengths', htype, hbindings'⟩ := carries_length_self hbeside.types hlengths fun e he =>
    hbeside.carried_fixed (hlengths e he) (hfixed ⟨.outline, n.withStruct b.name b.members, e⟩
      (List.mem_append_right _ (List.mem_map_of_mem he)))
  have hsymbols : blockSymbols (m.withStruct b.name b.members) b =
      blockSymbols (n.withStruct b.name b.members) b := by
    unfold blockSymbols
    split
    next hname =>
      rw [blockLength?, hname, Option.isSome_some, if_pos rfl] at htype
      rw [htype]
    next => rfl
  have hnames : ∀ s ∈ blockSymbols (n.withStruct b.name b.members) b, s.name ∈ c.taken := by
    unfold blockSymbols
    split
    next name hname => simpa using htaken name (by simp [Mangle.globalNames, hname])
    next =>
      rw [List.forall_mem_map]
      exact fun x hx => htaken x.name (by simp [Mangle.globalNames]; exact .inr (.inr ⟨x, hx, rfl⟩))
  obtain ⟨hfindings, hdeclared⟩ := hbeside.declareAll hnames hdeclare
  have hsettled : Settled interfaceBlock m b :=
    settled_interfaceBlock.mpr ⟨hmembers', hlengths', by rwa [hsymbols]⟩
  refine ⟨settled_top_block.mpr hsettled, ?_, ?_⟩
  · rw [TopLevel.sites, TopLevel.sites, siteBindings_append, siteBindings_append, hbindings, hsame,
      map_member_of_settled hmembers', ← lengthExprs_blockLength?, siteBindings_map, siteBindings_map,
      hbindings']
  · have hafter : ∀ k, after (topLevel (.block b)) k = after (interfaceBlock b) k := fun _ => rfl
    rw [hafter, hafter, after_interfaceBlock (settled_top_block.mp hb), after_interfaceBlock hsettled,
      hsymbols]
    exact hdeclared

/-! ### Heads of functions -/

/-- The head of a function gets the function's new name. -/
theorem prototype (h : c.Beside n m) {p : Prototype} (hp : Settled topLevel n (.prototype p))
    (hfixed : ∀ s ∈ (TopLevel.prototype p).sites n, s.isFixed ⟨[], c.naming⟩ = true)
    (hknown : p.name ∈ c.known) : c.Keeps (.prototype p) (.prototype { p with name := c.new p.name }) n m := by
  rw [settled_top_prototype] at hp
  obtain ⟨hparameters, hdeclare⟩ := settled_prototype.mp hp
  have hlengths : ∀ x ∈ p.parameters, ∀ e ∈ lengthExprs x.array, Settled expr n e := fun x hx =>
    (settled_parameter.mp (hparameters x hx)).1
  have hcarried : ∀ x ∈ p.parameters, ∀ e ∈ lengthExprs x.array, ∀ y ∈ e.nodes, y.Carried {} .empty n m :=
    fun x hx e he => h.carried_fixed (hlengths x hx e he)
      (hfixed ⟨.outline, n, e⟩ (List.mem_flatMap.mpr ⟨x, hx, List.mem_map_of_mem he⟩))
  obtain ⟨hfindings, hbeside⟩ := h.declareFunction hdeclare hknown
    (show ({ p with name := c.new p.name } : Prototype).name = c.new p.name from rfl) rfl rfl rfl
  have hp' : Settled (Resolve.prototype · false) m { p with name := c.new p.name } := by
    refine settled_prototype.mpr ⟨fun x hx => ?_, hfindings⟩
    obtain ⟨hlength, htype, -⟩ := carries_length_self h.types (hlengths x hx) (hcarried x hx)
    exact settled_parameter.mpr ⟨hlength, (htype _ _).trans (settled_parameter.mp (hparameters x hx)).2⟩
  have hafter : ∀ p k, after (topLevel (.prototype p)) k = after (Resolve.prototype p false) k := fun _ _ => rfl
  refine ⟨settled_top_prototype.mpr hp', ?_, ?_⟩
  · rw [TopLevel.sites, TopLevel.sites]
    unfold siteBindings
    rw [List.flatMap_assoc, List.flatMap_assoc]
    refine List.flatMap_congr fun x hx => ?_
    have hsame := (carries_length_self h.types (hlengths x hx) (hcarried x hx)).2.2
    exact (siteBindings_map .outline m _).trans (hsame.trans (siteBindings_map .outline n _).symm)
  · rw [hafter, hafter, after_prototype hp, after_prototype hp']
    exact hbeside

end Beside

end Scheme

end GlslEs
