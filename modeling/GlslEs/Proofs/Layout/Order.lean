import GlslEs.Proofs.Layout.Containment
import GlslEs.Proofs.Reading.Lexer
import GlslEs.Proofs.Reading.Shader
import GlslEs.Proofs.Resolve.Structs

/-!
# The order of structures

A structure can only have members of structures that are known in front of it, so structures that are
defined once do not contain themselves.  There is one exception.  A structure can be defined in front of
the name of a function, as the type of its result.  The name is known from there on, but the shader does
not keep the definition and nobody counts it, so the structure can be defined again, now with itself as
a member.

* `MemberTable.Descends`: members lead to entries further down in the table, except for certain names.
* `Resolve.descends_topLevels`: the exceptions are results of functions in front of the definition.
* `Shader.acyclic_iff_of_parse`: **structures contain no cycle exactly if none of the exceptions is on
  one**.
-/

namespace GlslEs

namespace MemberTable

variable {t : MemberTable} {early : String → Prop} {known : List String} {types : List Ty}

/-- How far from the end of the table the entry of a name is. -/
def rank : MemberTable → String → Nat
  | [], _ => 0
  | entry :: t, name => if name = entry.1 then t.length + 1 else rank t name

theorem rank_le_length (t : MemberTable) (name : String) : t.rank name ≤ t.length := by
  induction t with
  | nil => exact le_rfl
  | cons entry t ih =>
    unfold rank
    split
    · exact le_rfl
    · exact ih.trans (Nat.le_succ _)

/-- Every member of a structure is known, and its entry is further down in the table unless it is an
exception. -/
structure Descends (t : MemberTable) (known : List String) (early : String → Prop) : Prop where
  known : ∀ a b, t.Contains a b → b ∈ known
  rank : ∀ a b, t.Contains a b → t.rank b < t.rank a ∨ early b

theorem descends_nil (early : String → Prop) : Descends [] [] early := by
  constructor <;> rintro a b ⟨m, hm, -⟩ <;> cases hm

theorem Descends.mono {known' : List String} (h : t.Descends known early)
    (hsub : known ⊆ known') : t.Descends known' early :=
  ⟨fun a b hab => hsub (h.known a b hab), h.rank⟩

theorem contains_cons {name a b : String} :
    Contains ((name, types) :: t) a b ↔
      if a = name then ∃ m ∈ types, m.base = .struct b else t.Contains a b := by
  unfold Contains members
  rw [List.lookup_cons]
  by_cases ha : a = name
  · simp [ha]
  · simp [ha, beq_eq_false_iff_ne.mpr ha]

/-- One more entry, whose members are known.  If its own name is known, it is an exception. -/
theorem Descends.cons (h : t.Descends known early) {name : String}
    (hname : name ∈ known → early name)
    (htypes : ∀ m ∈ types, ∀ b, m.base = .struct b → b ∈ known) :
    Descends ((name, types) :: t) known early := by
  have hknown : ∀ a b, Contains ((name, types) :: t) a b → b ∈ known := by
    intro a b hab
    rw [contains_cons] at hab
    split at hab
    · obtain ⟨m, hm, hb⟩ := hab
      exact htypes m hm b hb
    · exact h.known a b hab
  refine ⟨hknown, fun a b hab => ?_⟩
  by_cases hb : b = name
  · exact .inr (hb ▸ hname (hb ▸ hknown a b hab))
  have hrank : MemberTable.rank ((name, types) :: t) b = t.rank b := if_neg hb
  rw [hrank]
  by_cases ha : a = name
  · have : MemberTable.rank ((name, types) :: t) a = t.length + 1 := if_pos ha
    exact .inl (by have := t.rank_le_length b; omega)
  · have : MemberTable.rank ((name, types) :: t) a = t.rank a := if_neg ha
    rw [this]
    exact h.rank a b (by simpa [contains_cons, ha] using hab)

/-- A cycle without exceptions would lead further and further down. -/
theorem Descends.acyclic (h : t.Descends known early)
    (hearly : ∀ name, early name → ¬ t.OnCycle name) : t.Acyclic := by
  have hrank : ∀ a b, Relation.TransGen t.Contains a b → Relation.ReflTransGen t.Contains b a →
      t.rank b < t.rank a := by
    intro a b hab
    induction hab with
    | single hab =>
      intro hback
      refine (h.rank _ _ hab).resolve_right fun hb => hearly _ hb ?_
      exact Relation.TransGen.tail' hback hab
    | tail hac hcb ih =>
      intro hback
      have hc := ih (hback.head hcb)
      have hb := (h.rank _ _ hcb).resolve_right fun hb => hearly _ hb ((hac.tail hcb).trans_right hback)
      exact hb.trans hc
  exact fun a ha => lt_irrefl _ (hrank a a ha .refl)

end MemberTable

/-! ### Declarations -/

namespace TopLevel

variable {ds : List TopLevel} {d : TopLevel}

/-- The entry of a declaration in the table of members. -/
def listed? : TopLevel → Option (String × List Ty)
  | .struct d => some (d.name, d.members.map (·.ty))
  | .globals d => d.struct.map fun d => (d.name, d.members.map (·.ty))
  | .block b => some (b.name, b.members.map (·.ty))
  | _ => none

/-- A declaration is a function with a structure as result, or announces one. -/
def Returns (d : TopLevel) (name : String) : Prop := ∃ p ∈ d.head?, p.result = .struct name

theorem defined_subset_entered (d : TopLevel) : d.defined ⊆ d.entered := by
  cases d <;> simp [entered, defined]

/-- The table of members behind declarations. -/
def memberTable (ds : List TopLevel) : MemberTable := (ds.filterMap listed?).reverse

/-- A structure or block is the result of a function in front of its definition. -/
def ReturnedEarly (ds : List TopLevel) (name : String) : Prop :=
  ∃ d e, [d, e].Sublist ds ∧ d.Returns name ∧ ∃ entry ∈ e.listed?, entry.1 = name

theorem not_returnedEarly
    (h : ds.Pairwise fun d e => ∀ p ∈ d.head?, ∀ entry ∈ e.listed?, p.result ≠ .struct entry.1)
    (name : String) : ¬ ReturnedEarly ds name := by
  rintro ⟨d, e, hsub, ⟨p, hp, hresult⟩, entry, hentry, rfl⟩
  exact List.pairwise_iff_forall_sublist.mp h hsub p hp entry hentry hresult

theorem memberTable_append_none (h : d.listed? = none) :
    memberTable (ds ++ [d]) = memberTable ds := by
  simp [memberTable, h]

theorem memberTable_append_some {entry : String × List Ty}
    (h : d.listed? = some entry) : memberTable (ds ++ [d]) = entry :: memberTable ds := by
  simp [memberTable, h]

end TopLevel

theorem Ty.base_ne_struct_of_ofKeyword? {word : String} {ty : Ty} (h : Ty.ofKeyword? word = some ty)
    (name : String) : ty.base ≠ .struct name := by
  unfold Ty.ofKeyword? at h
  split at h
  case h_30 =>
    obtain ⟨s, -, rfl⟩ := Option.map_eq_some_iff.mp h
    exact Base.noConfusion
  all_goals
    obtain rfl := Option.some.inj h
    exact Base.noConfusion

namespace Resolve

variable {S : List String} {n : Names} {name : String} {d : TopLevel}

/-- An array length does not make a structure out of another type. -/
theorem base_of_arrayedType {ty : Ty} {value : Option Ty} {array : Option ArrayLength}
    (h : (n.arrayedType ty value array).base = .struct name) : ty.base = .struct name := by
  unfold Names.arrayedType at h
  split at h
  · exact h
  · rename_i length
    cases hsize : (length.resolve n).size? n value with
    | none => simp [hsize, Ty.error] at h
    | some k => simpa [hsize, Ty.withArray] using h

/-- The structures among the members of a structure or block are known. -/
theorem mem_of_members {ms : List Member} (hms : ∀ m ∈ ms, m.ty.Named S) :
    ∀ ty ∈ (ms.map n.member).map (·.ty), ∀ name, ty.base = .struct name → name ∈ S := by
  simp only [List.map_map, List.forall_mem_map]
  intro m hm name hname
  have hbase : m.ty.base = .struct name := base_of_arrayedType hname
  rcases hms m hm with ⟨word, hword⟩ | ⟨known, hknown, -, hty⟩
  · exact absurd hbase (Ty.base_ne_struct_of_ofKeyword? hword name)
  · rw [hty] at hbase
    cases hbase
    exact hknown

theorem returns_topLevel (h : d.Returns name) : (run (topLevel d) n).1.Returns name := by
  obtain ⟨p, hp, hresult⟩ := h
  cases d with
  | prototype q | function f =>
    obtain rfl := Option.mem_some_iff.mp hp
    exact ⟨_, rfl, hresult⟩
  | precision | layout | globals | struct | block => cases hp

/-- A block is entered with its resolved members. -/
theorem listed?_block (b : InterfaceBlock) : (run (topLevel (.block b)) n).1.listed? =
    some (b.name, (b.members.map n.member).map (·.ty)) := by
  have hmap : (run (topLevel (.block b)) n).1 = .block (run (interfaceBlock b) n).1 := rfl
  rw [hmap, run_interfaceBlock]
  rfl

/-- A declaration enters its name with members that are known.  The name of a block is new. -/
theorem known_of_listed? (hd : d.Known S) {types : List Ty}
    (hentry : (run (topLevel d) n).1.listed? = some (name, types)) :
    (∀ ty ∈ types, ∀ b, ty.base = .struct b → b ∈ S) ∧ (name ∈ d.defined ∨ name ∉ S) := by
  cases d with
  | precision | layout | prototype | function => cases hentry
  | struct d =>
    have hrun : run (topLevel (.struct d)) n = (.struct (run (structDef d) n).1, (run (structDef d) n).2) :=
      rfl
    rw [hrun, run_structDef] at hentry
    cases hentry
    exact ⟨mem_of_members hd, .inl List.mem_cons_self⟩
  | globals d =>
    have hrun : (run (topLevel (.globals d)) n).1.listed? =
        (run (d.struct.mapM structDef) n).1.map fun d => (d.name, d.members.map (·.ty)) := rfl
    rw [hrun] at hentry
    cases hstruct : d.struct with
    | none =>
      rw [hstruct] at hentry
      cases hentry
    | some x =>
      rw [hstruct, run_optionMapM_some, run_structDef] at hentry
      cases hentry
      refine ⟨mem_of_members (hd x hstruct), .inl ?_⟩
      simp [TopLevel.defined, Declaration.defined, hstruct]
  | block b =>
    rw [listed?_block] at hentry
    cases hentry
    exact ⟨mem_of_members hd.1, .inr hd.2⟩

/-- Members lead down in the table, except to structures that a function returns in front of their
definition; `done` is what has been resolved so far. -/
theorem descends_topLevels {ds done all : List TopLevel} (hds : TopLevel.KnownAll S ds)
    (hdistinct : Distinct (ds.mapM topLevel) n) (hall : all = done ++ (run (ds.mapM topLevel) n).1)
    (hS : ∀ name ∈ S, name ∈ n.structNames ∨ ∃ e ∈ done, e.Returns name)
    (h : (TopLevel.memberTable done).Descends S (TopLevel.ReturnedEarly all)) :
    ∃ known, (TopLevel.memberTable all).Descends known (TopLevel.ReturnedEarly all) := by
  induction ds generalizing n S done with
  | nil =>
    rw [run_mapM_nil, List.append_nil] at hall
    exact ⟨S, hall ▸ h⟩
  | cons d ds ih =>
    obtain ⟨hd, E, hE, hrest⟩ := hds
    obtain ⟨hfresh, hdistinct⟩ := distinct_mapM_cons hdistinct
    rw [run_mapM_cons] at hall
    set d' := (run (topLevel d) n).1 with hd'
    have hbehind : all = (done ++ [d']) ++ (run (ds.mapM topLevel) (after (topLevel d) n)).1 := by
      rw [hall, List.append_assoc]
      rfl
    refine ih hrest hdistinct hbehind ?_ ?_
    · intro name hname
      rw [structNames_after_topLevel]
      rcases List.mem_append.mp hname with hname | hname
      · exact .inl (List.mem_append_left _ (TopLevel.defined_subset_entered d hname))
      rcases List.mem_append.mp hname with hname | hname
      · exact .inr ⟨d', by simp, returns_topLevel (hE name (by simpa using hname))⟩
      · rcases hS name hname with hknown | ⟨e, he, hreturns⟩
        · exact .inl (List.mem_append_right _ hknown)
        · exact .inr ⟨e, List.mem_append_left _ he, hreturns⟩
    · cases hentry : d'.listed? with
      | none =>
        rw [TopLevel.memberTable_append_none hentry]
        exact h.mono (by simp)
      | some entry =>
        obtain ⟨name, types⟩ := entry
        obtain ⟨htypes, hname⟩ := known_of_listed? hd hentry
        rw [TopLevel.memberTable_append_some hentry]
        refine (h.cons (fun hknown => ?_) htypes).mono (by simp)
        have hdefined := hname.resolve_right (not_not_intro hknown)
        obtain ⟨e, he, hreturns⟩ :=
          (hS name hknown).resolve_left (not_mem_structNames_of_distinct hfresh hdefined)
        have hsub : [e, d'].Sublist all := by
          rw [hall]
          exact (List.singleton_sublist.mpr he).append ((List.nil_sublist _).cons_cons d')
        exact ⟨e, d', hsub, hreturns, (name, types), hentry, rfl⟩

end Resolve

namespace Shader

variable {source : String} {limits : Limits} {s : Shader} {ds : List Diagnostic}

theorem exists_descends_of_parse (h : parse source limits = .ok (s, ds))
    (hds : ∀ d ∈ ds, d.code ≠ .redefinition) :
    ∃ known, s.memberTable.Descends known (TopLevel.ReturnedEarly s.declarations) := by
  obtain ⟨lexemes, shader, hlexemes, htokens, hresolve⟩ := exists_resolve_of_parse h
  obtain ⟨-, -, hknown⟩ := spelt_of_ofTokens htokens (Lexer.isRead_of_tokenize hlexemes)
  obtain ⟨rfl, rfl⟩ := Prod.mk.inj hresolve
  have hdistinct : Resolve.Distinct (shader.declarations.mapM Resolve.topLevel)
      (.ofBuiltins shader.version limits) :=
    fun f hf => hds f.report (Diagnostic.mem_sort.mpr (List.mem_map_of_mem hf))
  exact Resolve.descends_topLevels hknown hdistinct (List.nil_append _).symm (by simp)
    (MemberTable.descends_nil _)

/-- **Structures of structures.**  Where nothing is declared twice, the structures and blocks of a
shader contain no cycle exactly if no structure contains itself that is the result of a function in
front of its definition.  Then going down through members ends, and the sizes of all types are those of
the recursion through members. -/
theorem acyclic_iff_of_parse (h : parse source limits = .ok (s, ds))
    (hds : ∀ d ∈ ds, d.code ≠ .redefinition) :
    (s.memberTable.Acyclic ∧ WellFounded (fun m ty => m ∈ s.memberTable.membersOf ty) ∧
        s.memberTable.Unfolds) ↔
      ∀ name, TopLevel.ReturnedEarly s.declarations name → ¬ s.memberTable.OnCycle name := by
  obtain ⟨known, hdescends⟩ := exists_descends_of_parse h hds
  constructor
  · exact fun hacyclic name _ => hacyclic.1 name
  · intro hearly
    have hacyclic := hdescends.acyclic hearly
    exact ⟨hacyclic, hacyclic.wellFounded, hacyclic.unfolds⟩

/-- An array of structures in a structure in a block, and a function that returns it behind. -/
theorem acyclic_of_parse_nested :
    ∃ s, parse "struct A{int x;};struct B{A a[2];};uniform U{B b;};B f();void main(){}" .standard =
        .ok (s, []) ∧
      s.memberTable = [("U", [.struct "B"]), ("B", [(Ty.struct "A").withArray (some 2)]),
        ("A", [.int])] ∧
      s.memberTable.Acyclic ∧ WellFounded (fun m ty => m ∈ s.memberTable.membersOf ty) ∧
        s.memberTable.Unfolds := by
  obtain ⟨s, hparse, hs⟩ := exists_parse
    "struct A{int x;};struct B{A a[2];};uniform U{B b;};B f();void main(){}" .standard
    (P := fun s => decide (s.memberTable = [("U", [.struct "B"]),
        ("B", [(Ty.struct "A").withArray (some 2)]), ("A", [.int])]) &&
      decide (s.declarations.Pairwise fun (d e : TopLevel) =>
        ∀ p ∈ d.head?, ∀ entry ∈ e.listed?, p.result ≠ .struct entry.1))
    (by decide +kernel)
  obtain ⟨htable, hearly⟩ := Bool.and_eq_true_iff.mp hs
  refine ⟨s, hparse, of_decide_eq_true htable, ?_⟩
  refine (acyclic_iff_of_parse hparse (by simp)).mpr fun name hname => ?_
  exact absurd hname (TopLevel.not_returnedEarly (of_decide_eq_true hearly) name)

/-- A structure that is defined as the result of a function and then again with itself as a member. -/
theorem exists_onCycle_of_parse :
    ∃ s, parse "struct A{int x;}f();struct A{A a;};void main(){}" .standard = .ok (s, []) ∧
      s.memberTable.OnCycle "A" ∧ ¬ s.memberTable.Acyclic := by
  obtain ⟨s, hparse, hs⟩ := exists_parse "struct A{int x;}f();struct A{A a;};void main(){}" .standard
    (P := fun s => decide (s.memberTable = [("A", [.struct "A"])])) (by decide +kernel)
  have hcycle : s.memberTable.OnCycle "A" := by
    refine .single ?_
    rw [of_decide_eq_true hs]
    exact ⟨.struct "A", by simp [MemberTable.members], rfl⟩
  exact ⟨s, hparse, hcycle, fun hacyclic => hacyclic "A" hcycle⟩

end Shader

end GlslEs
