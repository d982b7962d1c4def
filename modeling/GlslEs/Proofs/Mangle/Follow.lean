import GlslEs.Proofs.Mangle.Rename
import GlslEs.Proofs.Mangle.Walk

/-!
# Names inside a function

While a function is resolved, a walk over it knows its symbols by their numbers, and the renamed
function is resolved beside it.  `Setting.Follows` says that the three places fit together: the local
symbols of the one place are those of the other, each with the new name of its number.

* `Aligned`: local symbols, their numbers and the symbols with new names.
* `Setting.Follows`: the three places fit together.
* `Setting.Follows.carries`: **then a new name means what the old one means.**
* `Setting.carries_declaration`: **declarations keep this up, are settled with new names as without, and their
  names refer to the same declarations.**
-/

namespace GlslEs

open Resolve

/-! ### Symbols and their numbers -/

namespace SymbolTable

variable {t : SymbolTable}

/-- The symbols of frames. -/
def locals (t : SymbolTable) : List Symbol := t.frames.flatMap (·.symbols)

/-- The symbols outside of all frames. -/
def outside (t : SymbolTable) : List Symbol := t.globals ++ t.builtins

theorem symbols_eq (t : SymbolTable) : t.symbols = t.locals ++ t.outside := by
  rw [symbols, locals, outside, List.append_assoc]

@[simp] theorem locals_enter (t : SymbolTable) (kind : ScopeKind) : (t.enter kind).locals = t.locals := by
  simp [locals, enter]

@[simp] theorem outside_enter (t : SymbolTable) (kind : ScopeKind) :
    (t.enter kind).outside = t.outside := rfl

theorem locals_insert (h : t.isGlobal = false) (s : Symbol) :
    (t.insert s).locals = s :: t.locals := by
  obtain ⟨frame, frames, hframes⟩ := exists_frame_of_isGlobal h
  simp [locals, insert, hframes]

theorem outside_insert (h : t.isGlobal = false) (s : Symbol) :
    (t.insert s).outside = t.outside := by
  obtain ⟨frame, frames, hframes⟩ := exists_frame_of_isGlobal h
  simp [outside, insert, hframes]

theorem current_subset_locals (h : t.isGlobal = false) : t.current ⊆ t.locals := by
  obtain ⟨frame, frames, hframes⟩ := exists_frame_of_isGlobal h
  simp [locals, current, hframes]

end SymbolTable

/-- Local symbols, their names with their numbers, and the same symbols with the new names of the
numbers.  Numbers grow, so that the innermost symbol has the largest one, below the given bound. -/
inductive Aligned (ν : Naming) : Nat → List Symbol → List (String × Nat) → List Symbol → Prop
  | nil (bound : Nat) : Aligned ν bound [] [] []
  | cons {bound id : Nat} {s : Symbol} {new : String} {xs ys : List Symbol}
      {ps : List (String × Nat)} (h : Aligned ν id xs ps ys) (hid : id < bound)
      (hnew : ν.symbols.lookup id = some new) :
      Aligned ν bound (s :: xs) ((s.name, id) :: ps) ({ s with name := new } :: ys)

namespace Aligned

variable {ν : Naming} {bound bound' id : Nat} {xs ys rest : List Symbol} {ps : List (String × Nat)}
  {x new : String}

theorem mono (h : Aligned ν bound xs ps ys) (hle : bound ≤ bound') : Aligned ν bound' xs ps ys := by
  cases h with
  | nil => exact .nil bound'
  | cons h hid hnew => exact .cons h (by omega) hnew

/-- New names are names of numbers. -/
theorem exists_lookup (h : Aligned ν bound xs ps ys) {y : Symbol} (hy : y ∈ ys) :
    ∃ id < bound, ν.symbols.lookup id = some y.name := by
  induction h with
  | nil => cases hy
  | cons _ hid hnew ih =>
    rcases List.mem_cons.mp hy with rfl | hy
    · exact ⟨_, hid, hnew⟩
    · obtain ⟨id, hlt, hlookup⟩ := ih hy
      exact ⟨id, by omega, hlookup⟩

theorem lt_of_lookup (h : Aligned ν bound xs ps ys) (hx : ps.lookup x = some id) : id < bound := by
  induction h with
  | nil => cases hx
  | cons _ hid hnew ih =>
    rw [List.lookup_cons] at hx
    split at hx
    · cases hx
      exact hid
    · have := ih hx
      omega

/-- A name has no number exactly if no local symbol has the name. -/
theorem lookup_eq_none_iff (h : Aligned ν bound xs ps ys) :
    ps.lookup x = none ↔ ∀ s ∈ xs, s.name ≠ x := by
  induction h with
  | nil => simp
  | cons _ hid hnew ih =>
    rename_i s _ _ _ _ _
    rw [List.lookup_cons, List.forall_mem_cons, ← ih]
    cases hname : x == s.name with
    | true => simp [(beq_iff_eq.mp hname).symm]
    | false => simp [Ne.symm (beq_eq_false_iff_ne.mp hname)]

/-- **A name with a number means the symbol that has the new name of the number.** -/
theorem locate_of_lookup
    (hν : ∀ {i j name}, ν.symbols.lookup i = some name → ν.symbols.lookup j = some name → i = j)
    (h : Aligned ν bound xs ps ys) (hx : ps.lookup x = some id)
    (hnew : ν.symbols.lookup id = some new) (rest : List Symbol) :
    ∃ k s, locate? (·.name == x) (xs ++ rest) = some (k, s) ∧
      locate? (·.name == new) (ys ++ rest) = some (k, { s with name := new }) := by
  induction h with
  | nil => cases hx
  | cons hrest hid hnew' ih =>
    rename_i bound i s new' xs ys ps
    rw [List.lookup_cons] at hx
    split at hx
    · -- the innermost symbol is the one
      rename_i hname
      cases hx
      obtain rfl : new' = new := Option.some.inj (hnew'.symm.trans hnew)
      exact ⟨0, s, by simp [locate?, eq_of_beq hname], by simp [locate?]⟩
    · -- its new name is another one, since its number is
      rename_i hname
      obtain ⟨k, t, hk, hk'⟩ := ih hx
      have hlt := hrest.lt_of_lookup hx
      have hne : new' ≠ new := by
        rintro rfl
        have := hν hnew hnew'
        omega
      have hold : s.name ≠ x := by
        rintro rfl
        simp at hname
      exact ⟨k + 1, t, by simp [locate?, hold, hk], by simp [locate?, hne, hk']⟩

/-- A name without a number that is no new name means the same symbol further out. -/
theorem locate_of_none (h : Aligned ν bound xs ps ys) (hx : ps.lookup x = none)
    (hnew : ∀ id, ν.symbols.lookup id ≠ some x) :
    locate? (·.name == x) (ys ++ rest) = locate? (·.name == x) (xs ++ rest) := by
  induction h with
  | nil => rfl
  | cons hrest hid hnew' ih =>
    rename_i bound i s new' xs ys ps
    rw [List.lookup_cons] at hx
    split at hx
    · cases hx
    · rename_i hname
      have hne : new' ≠ x := by
        rintro rfl
        exact hnew i hnew'
      have hold : s.name ≠ x := by
        rintro rfl
        simp at hname
      simp [locate?, hne, hold, ih hx]

end Aligned

/-! ### Places that fit together -/

/-- A function symbol with its new name. -/
def Naming.functionSymbol (ν : Naming) (f : FunctionSymbol) : FunctionSymbol :=
  { f with name := ν.function f.name }

/-- What is fixed while a function is walked over: the new names, how many symbols there are, and what
is known outside of the function.  Each symbol has a name of its own, which nothing outside has. -/
structure Setting where
  plan : WalkPlan
  total : Nat
  outside : List Symbol
  functions : List FunctionSymbol
  exists_name : ∀ id < total, ∃ new, plan.naming.symbols.lookup id = some new
  injective : ∀ {i j name}, plan.naming.symbols.lookup i = some name →
    plan.naming.symbols.lookup j = some name → i = j
  notReserved : ∀ {id name}, plan.naming.symbols.lookup id = some name → isReservedName name = false
  notOutside : ∀ {id name}, plan.naming.symbols.lookup id = some name →
    ∀ s ∈ outside, s.name ≠ name
  functionsApart : ∀ f ∈ functions, ∀ g ∈ functions,
    plan.naming.function f.name = plan.naming.function g.name → f.name = g.name

/-- Renaming functions apart keeps what calls mean. -/
theorem sameFunction_of_map {n m : Names} {ν : Naming} {f : String}
    (hapart : ∀ x ∈ n.functions, ∀ y ∈ n.functions, ν.function x.name = ν.function y.name →
      x.name = y.name)
    (hm : m.functions = n.functions.map ν.functionSymbol) (hf : n.hasFunction f = true) :
    n.SameFunction f m (ν.function f) := by
  obtain ⟨g, hg, hgname⟩ := List.any_eq_true.mp hf
  obtain rfl := eq_of_beq hgname
  have hname : ∀ x ∈ n.functions, ((ν.functionSymbol x).name == ν.function g.name) =
      (x.name == g.name) := by
    intro x hx
    rw [Bool.eq_iff_iff, beq_iff_eq, beq_iff_eq]
    exact ⟨hapart x hx g hg, fun h => congrArg ν.function h⟩
  refine ⟨hf, ?_, fun types => ?_⟩
  · rw [Names.hasFunction, hm, List.any_map, List.any_eq_true]
    exact ⟨g, hg, by simp [Naming.functionSymbol]⟩
  · unfold Names.locateFunction?
    rw [hm, locate?_map (q := fun x => x.name == g.name && x.parameters == types)]
    · refine Option.map_congr fun a ha => ?_
      have hfound := (of_locate? ha).2
      simp only [Bool.and_eq_true, beq_iff_eq] at hfound
      simp only [Naming.functionSymbol, hfound.1]
    · intro x hx
      rw [hname x hx]
      rfl

namespace Setting

variable {c : Setting} {n m : Names} {w : Walk}

/-- The place of a walk fits to a place in the function and to one in the renamed function. -/
structure Follows (c : Setting) (n : Names) (w : Walk) (m : Names) : Prop where
  types : n.SameTypes m
  functions : n.functions = c.functions
  renamed : m.functions = n.functions.map c.plan.naming.functionSymbol
  left : n.symbols.isGlobal = false
  right : m.symbols.isGlobal = false
  outsideLeft : n.symbols.outside = c.outside
  outsideRight : m.symbols.outside = c.outside
  aligned : Aligned c.plan.naming w.next n.symbols.locals w.scopes.entries m.symbols.locals
  bound : w.next ≤ c.total

namespace Follows

theorem sameFunction (h : c.Follows n w m) {f : String} (hf : n.hasFunction f = true) :
    n.SameFunction f m (c.plan.naming.function f) :=
  sameFunction_of_map (h.functions ▸ c.functionsApart) h.renamed hf

/-- A name that is declared outside and not in the function stays as it is. -/
theorem sameSymbol_of_none (h : c.Follows n w m) {x : String} {s : Symbol}
    (hs : n.symbols.find? x = some s) (hx : w.scopes.entries.lookup x = none) :
    n.symbols.SameSymbol x m.symbols x := by
  obtain ⟨hmem, rfl⟩ := SymbolTable.mem_symbols_of_find? hs
  have houtside : s ∈ c.outside := by
    rw [SymbolTable.symbols_eq, List.mem_append, h.outsideLeft] at hmem
    rcases hmem with hlocal | houtside
    · exact absurd rfl (h.aligned.lookup_eq_none_iff.mp hx s hlocal)
    · exact houtside
  have hnew : ∀ id, c.plan.naming.symbols.lookup id ≠ some s.name := fun id hid =>
    c.notOutside hid s houtside rfl
  have hlocate : m.symbols.locate? s.name = n.symbols.locate? s.name := by
    unfold SymbolTable.locate?
    rw [SymbolTable.symbols_eq, SymbolTable.symbols_eq, h.outsideLeft, h.outsideRight]
    exact h.aligned.locate_of_none hx hnew
  rw [SymbolTable.find?_eq_locate?] at hs
  obtain ⟨⟨k, t⟩, hk, rfl⟩ := Option.map_eq_some_iff.mp hs
  exact ⟨k, t, hk, hlocate.trans hk⟩

/-- A name with a number gets the new name of the number. -/
theorem sameSymbol_of_some (h : c.Follows n w m) {x new : String} {id : Nat}
    (hx : w.scopes.entries.lookup x = some id) (hnew : c.plan.naming.symbols.lookup id = some new) :
    n.symbols.SameSymbol x m.symbols new := by
  unfold SymbolTable.SameSymbol SymbolTable.locate?
  rw [SymbolTable.symbols_eq, SymbolTable.symbols_eq, h.outsideLeft, h.outsideRight]
  exact h.aligned.locate_of_lookup c.injective hx hnew c.outside

/-- **A new name means what the old one means.** -/
theorem carries (h : c.Follows n w m) : n.Carries c.plan.naming w.scopes m := by
  refine ⟨h.types, fun he => Expr.carried_of_settled he (fun note name s _ hs => ?_) fun _ _ _ _ => h.sameFunction⟩
  unfold Naming.variable_
  rw [Scopes.find?_eq_lookup]
  cases hid : w.scopes.entries.lookup name with
  | none => exact h.sameSymbol_of_none hs hid
  | some id =>
    have hlt := h.aligned.lt_of_lookup hid
    obtain ⟨new, hnew⟩ := c.exists_name id (Nat.lt_of_lt_of_le hlt h.bound)
    rw [Option.bind_some, hnew]
    exact h.sameSymbol_of_some hid hnew

/-- Scopes may be opened. -/
theorem enter (h : c.Follows n w m) {kind : ScopeKind} (hkind : kind ≠ .global) :
    c.Follows (n.enter kind) w (m.enter kind) where
  types := ⟨h.types.version, h.types.structs⟩
  functions := h.functions
  renamed := h.renamed
  left := n.isGlobal_enter hkind
  right := m.isGlobal_enter hkind
  outsideLeft := h.outsideLeft
  outsideRight := h.outsideRight
  aligned := by simpa [Names.enter] using h.aligned
  bound := h.bound

theorem enterWalk (h : c.Follows n w m) : c.Follows n { w with scopes := w.scopes.enter } m :=
  { h with aligned := h.aligned }

/-- What is behind a scope fits together again. -/
theorem restore (h : c.Follows n w m) {n' m' : Names} {w' : Walk} (hn : n.Extends n')
    (hm : m.Extends m') (hsymbols : n'.symbols = n.symbols) (hsymbols' : m'.symbols = m.symbols)
    (hstructs : m'.structs = n'.structs) (hscopes : w'.scopes = w.scopes) (hnext : w.next ≤ w'.next)
    (hbound : w'.next ≤ c.total) : c.Follows n' w' m' where
  types := ⟨by rw [hm.version, hn.version, h.types.version], hstructs⟩
  functions := hn.functions.trans h.functions
  renamed := by rw [hm.functions, hn.functions, h.renamed]
  left := hn.isLocal
  right := hm.isLocal
  outsideLeft := by rw [hsymbols, h.outsideLeft]
  outsideRight := by rw [hsymbols', h.outsideRight]
  aligned := by
    rw [hsymbols, hsymbols', hscopes]
    exact h.aligned.mono hnext
  bound := hbound

theorem notice (h : c.Follows n w m) (seen : List Occurrence) :
    c.Follows n { w with seen := seen } m := { h with aligned := h.aligned }

theorem withStruct (h : c.Follows n w m) (name : String) (ms : List Member) :
    c.Follows (n.withStruct name ms) w (m.withStruct name ms) :=
  { h with types := ⟨h.types.version, congrArg (_ :: ·) h.types.structs⟩ }

section Declare

variable {s : Symbol} {new : String}

/-- The new name of a new symbol is free. -/
theorem accepts (h : c.Follows n w m) (hnew : c.plan.naming.symbols.lookup w.next = some new) :
    m.accepts { s with name := new } = true := by
  have hfree : SymbolTable.find m.symbols.current new = none := by
    unfold SymbolTable.find
    rw [List.find?_eq_none]
    intro y hy hname
    obtain ⟨id, hid, hlookup⟩ := h.aligned.exists_lookup
      (SymbolTable.current_subset_locals h.right hy)
    rw [eq_of_beq hname] at hlookup
    have := c.injective hlookup hnew
    omega
  simp only [Names.accepts, c.notReserved hnew, h.right, hfree, Bool.not_false, Bool.false_and,
    Bool.and_self, Option.isNone_none]

/-- A symbol may be declared, under the new name of the next number. -/
theorem insert (h : c.Follows n w m) (hnew : c.plan.naming.symbols.lookup w.next = some new)
    (hlt : w.next < c.total) (seen : List Occurrence) :
    c.Follows (n.insert s) ⟨w.scopes.declare s.name w.next, w.next + 1, seen⟩
      (m.insert { s with name := new }) where
  types := ⟨h.types.version, h.types.structs⟩
  functions := h.functions
  renamed := h.renamed
  left := (SymbolTable.isGlobal_insert _ _).trans h.left
  right := (SymbolTable.isGlobal_insert _ _).trans h.right
  outsideLeft := (SymbolTable.outside_insert h.left s).trans h.outsideLeft
  outsideRight := (SymbolTable.outside_insert h.right _).trans h.outsideRight
  aligned := by
    simp only [Names.insert, SymbolTable.locals_insert h.left, SymbolTable.locals_insert h.right,
      Scopes.entries_declare]
    exact .cons h.aligned (by omega) hnew
  bound := hlt

end Declare

end Follows

end Setting

/-! ### Declarations -/

namespace Expr

/-- Whether the name of a node is neither that of a local symbol nor that of a function that gets a
new one. -/
def isFixed (ν : Naming) (n : Names) : Expr → Bool
  | .var _ x => n.symbols.locals.all (·.name != x)
  | .call _ (.user f) _ => ν.function f == f
  | _ => true

/-- Whether a node is no variable with one of the names. -/
def isApart (names : List String) : Expr → Bool
  | .var _ x => !names.contains x
  | _ => true

end Expr

/-- Whether the names at a site that the walk passes by, or walks over in another scope, keep their
meaning. -/
def Site.isFixed (ν : Naming) (s : Site) : Bool :=
  match s.kind with
  | .plain | .length => true
  | .outline => s.expr.nodes.all (Expr.isFixed ν s.names)
  | .parameter before => s.expr.nodes.all (Expr.isApart before)

/-- Places in a shader, in a walk and in the renamed shader that fit together, where `act` gives new names
to variables: `R` says so in front of the variables that are left. -/
structure Carrier (plan : WalkPlan) (act : Declarator → Walking Declarator)
    (R : List Declarator → Names → Walk → Names → Prop) : Prop where
  types : ∀ {ds n w m}, R ds n w m → n.SameTypes m
  fixed : ∀ {ds n w m e}, R ds n w m → Settled expr n e →
    e.nodes.all (Expr.isFixed plan.naming n) = true → ∀ x ∈ e.nodes, x.Carried {} .empty n m
  notice : ∀ {ds n w m} (seen : List Occurrence), R ds n w m → R ds n { w with seen := seen } m
  withStruct : ∀ {ds n w m} (name : String) (ms : List Member), R ds n w m →
    R ds (n.withStruct name ms) w (m.withStruct name ms)
  declarator : ∀ {q ty d ds n w m}, R (d :: ds) n w m → Settled (Resolve.declarator q ty) n d →
    Settled (Resolve.declarator q ty) m (act d plan w).1 ∧
      siteBindings ((act d plan w).1.sites m) = siteBindings (d.sites n) ∧
      R ds (after (Resolve.declarator q ty d) n) (act d plan w).2
        (after (Resolve.declarator q ty (act d plan w).1) m)

namespace Carrier

variable {plan : WalkPlan} {act : Declarator → Walking Declarator}
  {R : List Declarator → Names → Walk → Names → Prop} {n m : Names} {w : Walk} {ds : List Declarator}

theorem members (h : Carrier plan act R) (hR : R ds n w m) {ms : List Member} (hms : Settled members n ms)
    (hfixed : ∀ s ∈ memberSites n ms, s.isFixed plan.naming = true) :
    Settled Resolve.members m ms ∧ siteBindings (memberSites m ms) = siteBindings (memberSites n ms) := by
  refine carries_members (h.types hR) hms fun x hx e he => ?_
  have hsettled := (settled_member.mp (settled_members.mp hms x hx)).1
  exact h.fixed hR (hsettled e he)
    (hfixed ⟨.outline, n, e⟩ (List.mem_flatMap.mpr ⟨x, hx, List.mem_map_of_mem he⟩))

/-- The definition of a structure stays as it is. -/
theorem struct (h : Carrier plan act R) (hR : R ds n w m) {d : Option StructDef}
    (hd : Settled (Option.mapM structDef) n d)
    (hfixed : ∀ s ∈ d.toList.flatMap fun x => memberSites n x.members, s.isFixed plan.naming = true) :
    Settled (Option.mapM structDef) m d ∧
      siteBindings (d.toList.flatMap fun x => memberSites m x.members) =
        siteBindings (d.toList.flatMap fun x => memberSites n x.members) ∧
      R ds (after (d.mapM structDef) n) w (after (d.mapM structDef) m) := by
  cases d with
  | none => exact ⟨settled_optionMapM_none _, rfl, hR⟩
  | some d =>
    rw [settled_optionMapM_some] at hd ⊢
    simp only [Option.toList_some, List.flatMap_singleton] at hfixed ⊢
    obtain ⟨hmembers, hfree⟩ := settled_structDef.mp hd
    obtain ⟨hmembers', hbindings⟩ := h.members hR (settled_members.mpr hmembers) hfixed
    have hd' : Settled structDef m d := by
      rw [settled_structDef, (h.types hR).structs]
      exact ⟨settled_members.mp hmembers', hfree⟩
    have hafter : ∀ k, after ((some d).mapM structDef) k = after (structDef d) k := fun _ => rfl
    refine ⟨hd', hbindings, ?_⟩
    rw [hafter, hafter, after_structDef hd, after_structDef hd']
    exact h.withStruct d.name d.members hR

/-- Variables one after the other. -/
theorem declarators (h : Carrier plan act R) {q : TypeQualifiers} {ty : Ty} (hR : R ds n w m)
    (hds : Settled (List.mapM (Resolve.declarator q ty)) n ds) :
    Settled (List.mapM (Resolve.declarator q ty)) m (ds.mapM act plan w).1 ∧
      siteBindings (declaratorSites q ty m (ds.mapM act plan w).1) =
        siteBindings (declaratorSites q ty n ds) ∧
      R [] (after (ds.mapM (Resolve.declarator q ty)) n) (ds.mapM act plan w).2
        (after ((ds.mapM act plan w).1.mapM (Resolve.declarator q ty)) m) := by
  induction ds generalizing n w m with
  | nil =>
    rw [List.mapM_nil]
    refine ⟨settled_mapM_nil _, rfl, ?_⟩
    rw [after_mapM_nil]
    show R [] n w (after (List.mapM _ []) m)
    rwa [after_mapM_nil]
  | cons d ds ih =>
    obtain ⟨hd, hds⟩ := settled_mapM_cons.mp hds
    obtain ⟨hsettled, hbindings, hnext⟩ := h.declarator hR hd
    obtain ⟨hsettled', hbindings', hlast⟩ := ih hnext hds
    have hwalk : (d :: ds).mapM act plan w =
        ((act d plan w).1 :: (ds.mapM act plan (act d plan w).2).1, (ds.mapM act plan (act d plan w).2).2) := by
      rw [List.mapM_cons]
      rfl
    rw [hwalk]
    refine ⟨settled_mapM_cons.mpr ⟨hsettled, hsettled'⟩, ?_, ?_⟩
    · rw [declaratorSites, declaratorSites, siteBindings_append, siteBindings_append, hbindings, hbindings']
    · rw [after_mapM_cons, after_mapM_cons]
      exact hlast

/-- **A declaration with the new names of its variables.** -/
theorem declaration (h : Carrier plan act R) {d d' : Declaration} {w' : Walk} (hR : R d.declarators n w m)
    (hd : Settled declaration n d) (hfixed : ∀ s ∈ d.sites n, s.isFixed plan.naming = true)
    (hwalk : ∃ seen, ({ d with declarators := (d.declarators.mapM act plan ⟨w.scopes, w.next, seen⟩).1 },
      (d.declarators.mapM act plan ⟨w.scopes, w.next, seen⟩).2) = (d', w')) :
    Settled Resolve.declaration m d' ∧ siteBindings (d'.sites m) = siteBindings (d.sites n) ∧
      R [] (after (Resolve.declaration d) n) w' (after (Resolve.declaration d') m) := by
  obtain ⟨seen, hwalk⟩ := hwalk
  obtain ⟨rfl, rfl⟩ := Prod.mk.inj hwalk
  obtain ⟨hstruct, hdeclarators⟩ := settled_declaration.mp hd
  obtain ⟨hstruct', hbindings, hbehind⟩ :=
    h.struct hR hstruct fun s hs => hfixed s (List.mem_append_left _ hs)
  obtain ⟨hsettled, hbindings', hlast⟩ := h.declarators (h.notice seen hbehind) hdeclarators
  refine ⟨settled_declaration.mpr ⟨hstruct', hsettled⟩, ?_, ?_⟩
  · rw [Declaration.sites, Declaration.sites, siteBindings_append, siteBindings_append, hbindings,
      hbindings']
  · rw [after_declaration, after_declaration]
    exact hlast

end Carrier

namespace Walking

variable (plan : WalkPlan) (w : Walk) {new : String}

theorem array_value (array : Option ArrayLength) :
    (Walking.array array plan w).1 = array.map (·.rename plan.naming w.scopes) := by
  rcases array with - | - | - <;> rfl

theorem array_state (array : Option ArrayLength) :
    ∃ seen, (Walking.array array plan w).2 = ⟨w.scopes, w.next, seen⟩ := by
  rcases array with - | - | - <;> exact ⟨_, rfl⟩

theorem option_value (e : Option Expr) :
    (e.mapM expr plan w).1 = e.map (·.rename plan.naming w.scopes) := by
  cases e <;> rfl

theorem option_state (e : Option Expr) :
    ∃ seen, (e.mapM expr plan w).2 = ⟨w.scopes, w.next, seen⟩ := by
  cases e with
  | none | some e => exact ⟨_, rfl⟩

theorem declare_eq (name : String) (hnew : plan.naming.symbols.lookup w.next = some new) :
    declare name plan w =
      (new, ⟨w.scopes.declare name w.next, w.next + 1, w.seen ++ [.symbol w.next]⟩) := by
  show ((plan.naming.symbols.lookup w.next).getD name, _) = _
  rw [hnew]
  rfl

/-- What a walk makes of a variable. -/
theorem declarator_eq (d : Declarator) (hnew : plan.naming.symbols.lookup w.next = some new) :
    ∃ seen, declarator d plan w =
      (d.rename plan.naming w.scopes new, ⟨w.scopes.declare d.name w.next, w.next + 1, seen⟩) := by
  obtain ⟨seen, harray⟩ := array_state plan w d.array
  obtain ⟨seen', hvalue⟩ := option_state plan ⟨w.scopes, w.next, seen⟩ d.value
  have hrun : declarator d plan w =
      ({ d with
          array := (Walking.array d.array plan w).1
          value := (d.value.mapM expr plan (Walking.array d.array plan w).2).1
          name := (declare d.name plan (d.value.mapM expr plan (Walking.array d.array plan w).2).2).1 },
        (declare d.name plan (d.value.mapM expr plan (Walking.array d.array plan w).2).2).2) := rfl
  rw [hrun, array_value, harray, option_value, hvalue]
  exact ⟨_, by rw [declare_eq plan ⟨w.scopes, w.next, seen'⟩ d.name hnew]; rfl⟩

end Walking

namespace Setting

variable {c : Setting} {n m : Names} {w : Walk}

/-- What stays as it is means the same. -/
theorem Follows.carried_fixed (h : c.Follows n w m) {e : Expr} (he : Settled expr n e)
    (hfixed : e.nodes.all (Expr.isFixed c.plan.naming n) = true) :
    ∀ x ∈ e.nodes, x.Carried {} .empty n m := by
  rw [List.all_eq_true] at hfixed
  refine Expr.carried_of_settled he (fun note name s hx hs => ?_) fun note f args hx hf => ?_
  · rw [Naming.variable_eq_self rfl]
    refine h.sameSymbol_of_none hs (h.aligned.lookup_eq_none_iff.mpr fun s hs => ?_)
    simpa using List.all_eq_true.mp (hfixed _ hx) s hs
  · have hsame := h.sameFunction hf
    rwa [eq_of_beq (hfixed _ hx)] at hsame

/-- Variables inside a function get the names of their numbers. -/
theorem carrier (c : Setting) : Carrier c.plan Walking.declarator fun ds n w m =>
    c.Follows n w m ∧ w.next + ds.length ≤ c.total where
  types h := h.1.types
  fixed h := h.1.carried_fixed
  notice seen h := ⟨h.1.notice seen, h.2⟩
  withStruct name ms h := ⟨h.1.withStruct name ms, h.2⟩
  declarator {q ty d ds n w m} h hd := by
    obtain ⟨hfollows, hbound⟩ := h
    rw [List.length_cons] at hbound
    obtain ⟨new, hnew⟩ := c.exists_name w.next (by omega)
    obtain ⟨seen, hwalk⟩ := Walking.declarator_eq c.plan w d hnew
    obtain ⟨hsettled, hbindings, hafter⟩ := hfollows.carries.declarator hd (hfollows.accepts hnew)
    rw [hwalk, after_declarator hd, hafter]
    refine ⟨hsettled, hbindings, hfollows.insert hnew (by omega) seen, ?_⟩
    show w.next + 1 + ds.length ≤ c.total
    omega

/-- A declaration with the new names of its variables. -/
theorem carries_declaration {d : Declaration} (h : c.Follows n w m) (hd : Settled declaration n d)
    (hfixed : ∀ s ∈ d.sites n, s.isFixed c.plan.naming = true)
    (hbound : w.next + d.declared.length ≤ c.total) :
    Settled declaration m (Walking.declaration d c.plan w).1 ∧
      siteBindings ((Walking.declaration d c.plan w).1.sites m) = siteBindings (d.sites n) ∧
      c.Follows (after (declaration d) n) (Walking.declaration d c.plan w).2
        (after (declaration (Walking.declaration d c.plan w).1) m) := by
  rw [Declaration.declared, List.length_map] at hbound
  obtain ⟨hsettled, hbindings, hfollows, -⟩ := c.carrier.declaration ⟨h, hbound⟩ hd hfixed ⟨_, rfl⟩
  exact ⟨hsettled, hbindings, hfollows⟩

end Setting

end GlslEs
