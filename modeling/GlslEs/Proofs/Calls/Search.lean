import GlslEs.CallGraph
import Mathlib.Data.List.Chain
import Mathlib.Logic.Relation
import Mathlib.Order.Bounds.Defs

/-!
# Searching call graphs

`CallGraph.search` bounds the length of the chains it follows by the size of the graph.
`CallGraph.Visits` says what it does without that bound: functions are looked at one after the other,
a finished one gives its depth, one that is still being looked at is recursive, and a new one is
finished after the functions it calls.  The bound is never reached, so the search is a run of `Visits`.

The invariant of a run is `CallSearch.Sound`: the functions being looked at form a chain of calls, what
is marked as recursive lies on a cycle, and as long as nothing is marked, the depth of a finished
function is one more than the largest depth of those it calls.

* `CallGraph.visits_search`: the search ends, from every function.
* `CallGraph.Visits.keeps`: what a run preserves.
* `CallGraph.search_exact`: **recursion is found exactly where calls form a cycle, and without one the
  depth of a function is the length of the longest chain of calls from it**.
-/

namespace GlslEs

namespace CallGraph

variable {g : CallGraph}

/-- A function calls another one that has a body. -/
def Calls (g : CallGraph) (f h : String) : Prop := h ∈ g.callees f

/-- A function reaches itself by calls. -/
def OnCycle (g : CallGraph) (f : String) : Prop := Relation.TransGen g.Calls f f

theorem defines_iff {f : String} : g.defines f = true ↔ f ∈ g.map (·.1) := by
  induction g with
  | nil => simp [defines]
  | cons entry g ih =>
    obtain ⟨name, callees⟩ := entry
    simp only [defines, List.lookup_cons] at ih ⊢
    by_cases hname : f = name
    · simp [hname]
    · simp [hname, ih, beq_eq_false_iff_ne.mpr hname]

theorem Calls.defines_right {f h : String} (hcalls : g.Calls f h) : g.defines h = true :=
  (List.mem_filter.mp hcalls).2

theorem Calls.defines_left {f h : String} (hcalls : g.Calls f h) : g.defines f = true := by
  unfold Calls callees at hcalls
  unfold defines
  cases hf : g.lookup f with
  | none => simp [hf] at hcalls
  | some names => rfl

/-! ### Runs of the search -/

/-- Looking at functions one after the other takes the search from one state to another, and the largest
depth so far from one number to another. -/
inductive Visits (g : CallGraph) : List String → Nat → CallSearch → Nat → CallSearch → Prop
  | nil {n : Nat} {s : CallSearch} : Visits g [] n s n s
  | done {f : String} {fs : List String} {n m depth : Nat} {s s' : CallSearch}
      (hf : s.visits.lookup f = some (.done depth)) (hfs : Visits g fs (max n depth) s m s') :
      Visits g (f :: fs) n s m s'
  | active {f : String} {fs : List String} {n m : Nat} {s s' : CallSearch}
      (hf : s.visits.lookup f = some .active) (hfs : Visits g fs (max n 0) (s.markRecursive f) m s') :
      Visits g (f :: fs) n s m s'
  | fresh {f : String} {fs : List String} {n m deepest : Nat} {s inner s' : CallSearch}
      (hf : s.visits.lookup f = none)
      (hcallees : Visits g (g.callees f) 0 (s.mark f .active) deepest inner)
      (hfs : Visits g fs (max n (deepest + 1)) (inner.mark f (.done (deepest + 1))) m s') :
      Visits g (f :: fs) n s m s'

/-- The entries of a graph that the search has not seen yet. -/
def unseen (g : CallGraph) (s : CallSearch) : Nat :=
  g.countP fun f => (s.visits.lookup f.1).isNone

end CallGraph

namespace CallSearch

variable {s s' : CallSearch} {f h : String} {v : Visit}

theorem lookup_mark_self : (s.mark f v).visits.lookup f = some v := by
  simp [mark]

theorem lookup_mark_of_ne (hne : h ≠ f) : (s.mark f v).visits.lookup h = s.visits.lookup h := by
  simp [mark, List.lookup_cons, beq_eq_false_iff_ne.mpr hne]

@[simp]
theorem visits_markRecursive : (s.markRecursive f).visits = s.visits := rfl

theorem mem_recursive_markRecursive :
    h ∈ (s.markRecursive f).recursive ↔ h = f ∨ h ∈ s.recursive := by
  unfold markRecursive
  split
  · rename_i hmem
    simp only [List.contains_eq_mem, decide_eq_true_eq] at hmem
    constructor
    · exact .inr
    · rintro (rfl | hh)
      · exact hmem
      · exact hh
  · simp

theorem depth?_eq_some {d : Nat} : s.depth? f = some d ↔ s.visits.lookup f = some (.done d) := by
  unfold depth?
  split <;> simp_all

/-- What has been seen stays seen. -/
def Grows (s s' : CallSearch) : Prop :=
  ∀ f, (s.visits.lookup f).isSome → (s'.visits.lookup f).isSome

theorem Grows.refl (s : CallSearch) : Grows s s := fun _ => id

theorem Grows.trans {s₁ s₂ s₃ : CallSearch} (h₁ : Grows s₁ s₂) (h₂ : Grows s₂ s₃) : Grows s₁ s₃ :=
  fun f hf => h₂ f (h₁ f hf)

theorem Grows.mark (s : CallSearch) (f : String) (v : Visit) : Grows s (s.mark f v) := by
  intro h hh
  by_cases hne : h = f
  · rw [hne, lookup_mark_self]
    rfl
  · rwa [lookup_mark_of_ne hne]

theorem Grows.unseen_le {g : CallGraph} (hgrows : Grows s s') : g.unseen s' ≤ g.unseen s := by
  refine List.countP_mono_left fun f _ hf => ?_
  rw [Option.isNone_iff_eq_none] at hf ⊢
  by_contra hseen
  have := hgrows f.1 (Option.isSome_iff_ne_none.mpr hseen)
  rw [hf] at this
  cases this

end CallSearch

namespace CallGraph

open CallSearch

variable {g : CallGraph}

theorem unseen_mark_lt {s : CallSearch} {f : String} {v : Visit} (hf : s.visits.lookup f = none)
    (hdef : g.defines f = true) : g.unseen (s.mark f v) < g.unseen s := by
  obtain ⟨entry, hentry, rfl⟩ := List.mem_map.mp (defines_iff.mp hdef)
  obtain ⟨before, after, rfl⟩ := List.append_of_mem hentry
  -- The entry itself is counted before and not after; all others are not counted anew.
  have hle : ∀ l : CallGraph, l.unseen (s.mark entry.1 v) ≤ l.unseen s :=
    fun l => (Grows.mark s entry.1 v).unseen_le
  have hbefore := hle before
  have hafter := hle after
  simp only [unseen] at hbefore hafter ⊢
  simp only [List.countP_append, List.countP_cons, hf, lookup_mark_self]
  simp only [Option.isNone_none, Option.isNone_some]
  simp only [if_true, Bool.false_eq_true, if_false]
  omega

/-- Functions one after the other, if looking at each of them is a run. -/
theorem visits_foldl (room : Nat) (fs : List String)
    (hvisit : ∀ f ∈ fs, ∀ s : CallSearch, g.unseen s < room →
      Grows s (g.visit room f s).2 ∧ ∀ {fs n m s'},
        g.Visits fs (max n (g.visit room f s).1) (g.visit room f s).2 m s' → g.Visits (f :: fs) n s m s')
    (n : Nat) (s : CallSearch) (hroom : g.unseen s < room) :
    ∃ m s', fs.foldl (fun (deepest, s) callee =>
        let (depth, s) := g.visit room callee s
        (max deepest depth, s)) (n, s) = (m, s') ∧ Grows s s' ∧ g.Visits fs n s m s' := by
  induction fs generalizing n s with
  | nil => exact ⟨n, s, rfl, .refl s, .nil⟩
  | cons f fs ih =>
    obtain ⟨hgrows, hrun⟩ := hvisit f List.mem_cons_self s hroom
    obtain ⟨m, s', hfold, hgrows', hfs⟩ := ih (fun h hh => hvisit h (List.mem_cons_of_mem _ hh))
      (max n (g.visit room f s).1) _ (lt_of_le_of_lt hgrows.unseen_le hroom)
    exact ⟨m, s', hfold, hgrows.trans hgrows', hrun hfs⟩

/-- With room for every function that has not been seen, looking at a function is a run. -/
theorem visits_visit (room : Nat) (f : String) (hdef : g.defines f = true) (s : CallSearch)
    (hroom : g.unseen s < room) :
    Grows s (g.visit room f s).2 ∧ ∀ {fs n m s'},
      g.Visits fs (max n (g.visit room f s).1) (g.visit room f s).2 m s' →
        g.Visits (f :: fs) n s m s' := by
  induction room generalizing f s with
  | zero => omega
  | succ room ih =>
    unfold visit
    split
    · rename_i depth hf
      exact ⟨.refl s, .done hf⟩
    · rename_i hf
      exact ⟨fun _ => id, .active hf⟩
    · rename_i hf
      have hless := unseen_mark_lt (v := .active) hf hdef
      obtain ⟨deepest, inner, hfold, hgrows, hcallees⟩ := visits_foldl room (g.callees f)
        (fun h hh => ih h (Calls.defines_right hh)) 0 (s.mark f .active) (by omega)
      rw [hfold]
      exact ⟨((Grows.mark s f .active).trans hgrows).trans (Grows.mark _ _ _), .fresh hf hcallees⟩

/-- **The search ends**: it is a run from every function. -/
theorem visits_search (g : CallGraph) : ∃ m, g.Visits (g.map (·.1)) 0 {} m g.search := by
  have hroom : g.unseen {} < g.length + 1 := Nat.lt_succ_of_le List.countP_le_length
  obtain ⟨m, s', hfold, -, hrun⟩ := visits_foldl (g.length + 1) (g.map (·.1))
    (fun f hf => visits_visit (g.length + 1) f (defines_iff.mpr hf)) 0 {} hroom
  -- The search forgets the depths on the way.
  have hsearch : ∀ (l : CallGraph) (n : Nat) (s : CallSearch),
      ((l.map (·.1)).foldl (fun (deepest, s) callee =>
        let (depth, s) := g.visit (g.length + 1) callee s
        (max deepest depth, s)) (n, s)).2 =
      l.foldl (fun s f => (g.visit (g.length + 1) f.1 s).2) s := by
    intro l
    induction l with
    | nil => intro n s; rfl
    | cons entry l ih => intro n s; exact ih _ _
  have hend : g.search = s' := by
    rw [search, ← hsearch g 0, hfold]
  exact ⟨m, hend ▸ hrun⟩

end CallGraph

/-! ### What a run preserves -/

namespace CallSearch

/-- The depth of a function is one more than the largest depth of the functions it calls. -/
structure Settled (g : CallGraph) (s : CallSearch) (f : String) (depth : Nat) : Prop where
  above : ∀ h, g.Calls f h → ∃ d, s.depth? h = some d ∧ d < depth
  attained : depth = 1 ∨ ∃ h, g.Calls f h ∧ s.depth? h = some (depth - 1)

/-- What holds at every state of a search; `path` are the functions being looked at, the innermost one
first. -/
structure Sound (g : CallGraph) (path : List String) (s : CallSearch) : Prop where
  active_iff : ∀ f, s.visits.lookup f = some .active ↔ f ∈ path
  chain : path.IsChain fun f h => g.Calls h f
  onCycle : ∀ f ∈ s.recursive, g.OnCycle f
  settled : s.recursive = [] → ∀ f d, s.depth? f = some d → Settled g s f d

/-- What a step keeps of the state before it: what is recursive or finished stays so. -/
structure Keeps (s s' : CallSearch) : Prop where
  recursive : s'.recursive = [] → s.recursive = []
  depth : ∀ f d, s.depth? f = some d → s'.depth? f = some d

theorem Keeps.refl (s : CallSearch) : Keeps s s := ⟨id, fun _ _ => id⟩

variable {g : CallGraph} {path : List String} {s s' : CallSearch} {f h : String}

theorem Settled.congr {d : Nat} (hsettled : Settled g s f d)
    (hsame : ∀ h e, s.depth? h = some e → s'.depth? h = some e) : Settled g s' f d where
  above h hh :=
    have ⟨e, he, hlt⟩ := hsettled.above h hh
    ⟨e, hsame h e he, hlt⟩
  attained := hsettled.attained.imp_right fun ⟨h, hh, he⟩ => ⟨h, hh, hsame h _ he⟩

theorem depth?_mark_active {n : Nat} :
    (s.mark f .active).depth? h = some n ↔ h ≠ f ∧ s.depth? h = some n := by
  rw [depth?_eq_some, depth?_eq_some]
  by_cases hne : h = f
  · rw [hne, lookup_mark_self]
    simp
  · rw [lookup_mark_of_ne hne]
    simp [hne]

theorem depth?_mark_done {d n : Nat} :
    (s.mark f (.done d)).depth? h = some n ↔ h = f ∧ d = n ∨ h ≠ f ∧ s.depth? h = some n := by
  rw [depth?_eq_some, depth?_eq_some]
  by_cases hne : h = f
  · rw [hne, lookup_mark_self]
    simp
  · rw [lookup_mark_of_ne hne]
    simp [hne]

/-- The functions being looked at lead from each of them to the innermost one. -/
theorem reflTransGen_of_isChain {top : String} {below : List String}
    (hchain : (top :: below).IsChain fun f h => g.Calls h f) (hf : f ∈ top :: below) :
    Relation.ReflTransGen g.Calls f top := by
  induction below generalizing top with
  | nil =>
    rw [List.mem_singleton.mp hf]
  | cons next below ih =>
    obtain ⟨hcalls, hchain⟩ := List.isChain_cons_cons.mp hchain
    rcases List.mem_cons.mp hf with rfl | hf
    · exact .refl
    · exact (ih hchain hf).tail hcalls

namespace Sound

theorem init (g : CallGraph) : Sound g [] {} where
  active_iff f := by simp
  chain := List.isChain_nil
  onCycle f hf := by cases hf
  settled _ f d hd := by simp [depth?] at hd

/-- Meeting a function that is being looked at closes a cycle. -/
theorem markRecursive (hs : Sound g path s) (hf : f ∈ path) (htop : ∀ top ∈ path.head?, g.Calls top f) :
    Sound g path (s.markRecursive f) where
  active_iff := hs.active_iff
  chain := hs.chain
  onCycle h hh := by
    rcases mem_recursive_markRecursive.mp hh with rfl | hh
    · cases path with
      | nil => cases hf
      | cons top below =>
        exact .tail' (reflTransGen_of_isChain hs.chain hf) (htop top rfl)
    · exact hs.onCycle h hh
  settled hnone := by
    have : f ∈ (s.markRecursive f).recursive := mem_recursive_markRecursive.mpr (.inl rfl)
    rw [hnone] at this
    cases this

/-- A new function goes on the path. -/
theorem enter (hs : Sound g path s) (hf : s.visits.lookup f = none)
    (htop : ∀ top ∈ path.head?, g.Calls top f) : Sound g (f :: path) (s.mark f .active) where
  active_iff h := by
    by_cases hne : h = f
    · rw [hne, lookup_mark_self]
      simp
    · rw [lookup_mark_of_ne hne, hs.active_iff, List.mem_cons]
      simp [hne]
  chain := List.isChain_cons.mpr ⟨htop, hs.chain⟩
  onCycle := hs.onCycle
  settled hnone h d hd := by
    obtain ⟨hne, hd⟩ := depth?_mark_active.mp hd
    refine (hs.settled hnone h d hd).congr fun e n he => depth?_mark_active.mpr ⟨?_, he⟩
    -- A finished function is not the new one.
    rintro rfl
    rw [depth?_eq_some, hf] at he
    cases he

/-- A function leaves the path with its depth. -/
theorem leave {deepest : Nat} (hs : Sound g (f :: path) s) (hfresh : f ∉ path)
    (hdepth : s.recursive = [] → Settled g s f (deepest + 1)) :
    Sound g path (s.mark f (.done (deepest + 1))) where
  active_iff h := by
    by_cases hne : h = f
    · rw [hne, lookup_mark_self]
      simp [hfresh]
    · rw [lookup_mark_of_ne hne, hs.active_iff, List.mem_cons]
      simp [hne]
  chain := hs.chain.tail
  onCycle := hs.onCycle
  settled hnone h d hd := by
    have hactive : s.visits.lookup f = some .active := (hs.active_iff f).mpr List.mem_cons_self
    have hkept : ∀ e n, s.depth? e = some n → (s.mark f (.done (deepest + 1))).depth? e = some n := by
      intro e n he
      refine depth?_mark_done.mpr (.inr ⟨?_, he⟩)
      rintro rfl
      rw [depth?_eq_some, hactive] at he
      cases he
    rcases depth?_mark_done.mp hd with ⟨rfl, rfl⟩ | ⟨-, hd⟩
    · exact (hdepth hnone).congr hkept
    · exact (hs.settled hnone h d hd).congr hkept

end Sound

end CallSearch

namespace CallGraph

variable {s : CallSearch} {f : String} {fs : List String} {d : Nat}

open CallSearch

variable {g : CallGraph}

/-- The largest depth among finished functions, starting from a number. -/
structure Deepest (s : CallSearch) (fs : List String) (n m : Nat) : Prop where
  start : n ≤ m
  bound : ∀ f ∈ fs, ∃ d, s.depth? f = some d ∧ d ≤ m
  attained : m = n ∨ ∃ f ∈ fs, s.depth? f = some m

theorem Deepest.cons {n m : Nat}
    (hf : s.depth? f = some d) (hfs : Deepest s fs (max n d) m) : Deepest s (f :: fs) n m where
  start := le_trans (le_max_left n d) hfs.start
  bound h hh := by
    rcases List.mem_cons.mp hh with rfl | hh
    · exact ⟨d, hf, le_trans (le_max_right n d) hfs.start⟩
    · exact hfs.bound h hh
  attained := by
    rcases hfs.attained with hm | ⟨h, hh, hm⟩
    · rcases le_total d n with hle | hle
      · exact .inl (hm.trans (max_eq_left hle))
      · exact .inr ⟨f, List.mem_cons_self, hm.trans (max_eq_right hle) ▸ hf⟩
    · exact .inr ⟨h, List.mem_cons_of_mem _ hh, hm⟩

theorem Deepest.settled {m : Nat} (h : Deepest s (g.callees f) 0 m) :
    Settled g s f (m + 1) where
  above h' hh :=
    have ⟨d, hd, hle⟩ := h.bound h' hh
    ⟨d, hd, Nat.lt_succ_of_le hle⟩
  attained := by
    rcases h.attained with rfl | ⟨h', hh, hm⟩
    · exact .inl rfl
    · exact .inr ⟨h', hh, hm⟩

/-- **A run keeps the invariant**, and unless it meets recursion it finishes all its functions and finds
the largest of their depths. -/
theorem Visits.keeps {n m : Nat} {s' : CallSearch} (hrun : g.Visits fs n s m s')
    {path : List String} (hs : Sound g path s)
    (htop : ∀ f ∈ fs, ∀ top ∈ path.head?, g.Calls top f) :
    Sound g path s' ∧ Keeps s s' ∧ (s'.recursive = [] → Deepest s' fs n m) := by
  induction hrun generalizing path with
  | nil => exact ⟨hs, .refl _, fun _ => ⟨le_rfl, by simp, .inl rfl⟩⟩
  | @done f fs n m depth s s' hf hfs ih =>
    obtain ⟨hs', hkeeps, hdeepest⟩ := ih hs fun h hh => htop h (List.mem_cons_of_mem _ hh)
    exact ⟨hs', hkeeps, fun hnone => .cons (hkeeps.depth f depth (depth?_eq_some.mpr hf)) (hdeepest hnone)⟩
  | @active f fs n m s s' hf hfs ih =>
    have hmarked := hs.markRecursive ((hs.active_iff f).mp hf) (htop f List.mem_cons_self)
    obtain ⟨hs', hkeeps, -⟩ := ih hmarked fun h hh => htop h (List.mem_cons_of_mem _ hh)
    -- From here on there is a recursive function.
    have hrecursive : s'.recursive ≠ [] := fun hnone => by
      have := mem_recursive_markRecursive (s := s) (h := f) (f := f) |>.mpr (.inl rfl)
      rw [hkeeps.recursive hnone] at this
      cases this
    exact ⟨hs', ⟨fun hnone => absurd hnone hrecursive, hkeeps.depth⟩,
      fun hnone => absurd hnone hrecursive⟩
  | @fresh f fs n m deepest s inner s' hf hcallees hfs ihcallees ihfs =>
    have hfresh : f ∉ path := fun hmem => by
      rw [(hs.active_iff f).mpr hmem] at hf
      cases hf
    obtain ⟨hinner, hkeepsInner, hdeepest⟩ := ihcallees (hs.enter hf (htop f List.mem_cons_self))
      fun h hh top htop => by
        obtain rfl := Option.mem_some_iff.mp htop
        exact hh
    obtain ⟨hs', hkeeps, hrest⟩ := ihfs (hinner.leave hfresh fun hnone => (hdeepest hnone).settled)
      fun h hh => htop h (List.mem_cons_of_mem _ hh)
    have hdone : s'.depth? f = some (deepest + 1) :=
      hkeeps.depth f _ (depth?_mark_done.mpr (.inl ⟨rfl, rfl⟩))
    refine ⟨hs', ⟨fun hnone => hkeepsInner.recursive (hkeeps.recursive hnone), ?_⟩,
      fun hnone => .cons hdone (hrest hnone)⟩
    intro h d hd
    -- The new function had no depth before.
    have hne : h ≠ f := by
      rintro rfl
      rw [depth?_eq_some, hf] at hd
      cases hd
    have hd' := hkeepsInner.depth h d (depth?_mark_active.mpr ⟨hne, hd⟩)
    exact hkeeps.depth h d (depth?_mark_done.mpr (.inr ⟨hne, hd'⟩))

/-! ### What the search finds -/

theorem sound_search (g : CallGraph) : Sound g [] g.search :=
  have ⟨_, hrun⟩ := g.visits_search
  (hrun.keeps (.init g) (by simp)).1

/-- Without recursion, every function with a body gets the depth that follows from those it calls. -/
theorem exists_depth (hnone : g.search.recursive = []) (hf : g.defines f = true) :
    ∃ d, g.search.depth? f = some d ∧ Settled g g.search f d := by
  obtain ⟨m, hrun⟩ := g.visits_search
  obtain ⟨hs, -, hdeepest⟩ := hrun.keeps (.init g) (by simp)
  obtain ⟨d, hd, -⟩ := (hdeepest hnone).bound f (defines_iff.mp hf)
  exact ⟨d, hd, hs.settled hnone f d hd⟩

/-- Without recursion, depths go down along calls. -/
theorem depth_lt_of_transGen {h : String} (hnone : g.search.recursive = [])
    (hcalls : Relation.TransGen g.Calls f h) (hd : g.search.depth? f = some d) :
    ∃ e, g.search.depth? h = some e ∧ e < d := by
  have hstep : ∀ {a b n}, g.Calls a b → g.search.depth? a = some n →
      ∃ e, g.search.depth? b = some e ∧ e < n :=
    fun hab hn => (g.sound_search.settled hnone _ _ hn).above _ hab
  induction hcalls with
  | single hab => exact hstep hab hd
  | tail _ hbc ih =>
    obtain ⟨e, he, hlt⟩ := ih
    obtain ⟨e', he', hlt'⟩ := hstep hbc he
    exact ⟨e', he', hlt'.trans hlt⟩

theorem search_recursive_eq_nil_iff : g.search.recursive = [] ↔ ∀ f, ¬ g.OnCycle f := by
  constructor
  · intro hnone f hcycle
    obtain ⟨h, hcalls, -⟩ := Relation.TransGen.head'_iff.mp hcycle
    obtain ⟨d, hd, -⟩ := exists_depth hnone hcalls.defines_left
    obtain ⟨e, he, hlt⟩ := depth_lt_of_transGen hnone hcycle hd
    rw [hd] at he
    cases he
    exact lt_irrefl d hlt
  · intro hacyclic
    rw [List.eq_nil_iff_forall_not_mem]
    exact fun f hf => hacyclic f (g.sound_search.onCycle f hf)

theorem mem_recursive_iff : f ∈ g.recursive ↔ f ∈ g.search.recursive := List.mem_mergeSort

/-- Some function is found to be recursive exactly if one reaches itself by calls. -/
theorem recursive_ne_nil_iff : g.recursive ≠ [] ↔ ∃ f, g.OnCycle f := by
  have hnil : g.recursive = [] ↔ g.search.recursive = [] := by
    simp only [List.eq_nil_iff_forall_not_mem, mem_recursive_iff]
  rw [ne_eq, hnil, search_recursive_eq_nil_iff]
  simp only [not_forall, not_not]

/-- The lengths of the chains of calls that start with a function. -/
def chainLengths (g : CallGraph) (f : String) : Set Nat :=
  {n | ∃ fs, (f :: fs).IsChain g.Calls ∧ (f :: fs).length = n}

theorem length_le_depth (hnone : g.search.recursive = [])
    (hchain : (f :: fs).IsChain g.Calls) (hd : g.search.depth? f = some d) : (f :: fs).length ≤ d := by
  induction fs generalizing f d with
  | nil =>
    rcases (g.sound_search.settled hnone f d hd).attained with rfl | ⟨h, hh, hd'⟩
    · exact le_rfl
    · obtain ⟨e, -, hlt⟩ := (g.sound_search.settled hnone f d hd).above h hh
      simp only [List.length_singleton]
      omega
  | cons h fs ih =>
    obtain ⟨hcalls, hchain⟩ := List.isChain_cons_cons.mp hchain
    obtain ⟨e, he, hlt⟩ := (g.sound_search.settled hnone f d hd).above h hcalls
    have := ih hchain he
    simp only [List.length_cons] at this ⊢
    omega

theorem exists_chain_of_depth (hnone : g.search.recursive = [])
    (hd : g.search.depth? f = some d) : ∃ fs, (f :: fs).IsChain g.Calls ∧ (f :: fs).length = d := by
  induction d using Nat.strong_induction_on generalizing f with
  | _ d ih =>
    have hsettled := g.sound_search.settled hnone f d hd
    rcases hsettled.attained with rfl | ⟨h, hh, hd'⟩
    · exact ⟨[], List.isChain_singleton f, rfl⟩
    · obtain ⟨e, he, hlt⟩ := hsettled.above h hh
      obtain ⟨fs, hchain, hlength⟩ := ih (d - 1) (by omega) hd'
      refine ⟨h :: fs, List.isChain_cons_cons.mpr ⟨hh, hchain⟩, ?_⟩
      simp only [List.length_cons] at hlength ⊢
      omega

/-- **The search is exact.**  It ends from every function; a function is found to be recursive only if
it reaches itself by calls, and some function is found exactly if one does; and if none does, every
function with a body gets the length of the longest chain of calls that starts with it. -/
theorem search_exact (g : CallGraph) :
    (∃ m, g.Visits (g.map (·.1)) 0 {} m g.search) ∧
      (g.recursive ≠ [] ↔ ∃ f, g.OnCycle f) ∧ (∀ f ∈ g.recursive, g.OnCycle f) ∧
      ((∀ f, ¬ g.OnCycle f) → ∀ f, g.defines f = true →
        ∃ d, g.search.depth? f = some d ∧ IsGreatest (g.chainLengths f) d) := by
  refine ⟨g.visits_search, recursive_ne_nil_iff,
    fun f hf => g.sound_search.onCycle f (mem_recursive_iff.mp hf), ?_⟩
  intro hacyclic f hf
  have hnone := search_recursive_eq_nil_iff.mpr hacyclic
  obtain ⟨d, hd, -⟩ := exists_depth hnone hf
  refine ⟨d, hd, exists_chain_of_depth hnone hd, ?_⟩
  rintro n ⟨fs, hchain, rfl⟩
  exact length_le_depth hnone hchain hd

end CallGraph

end GlslEs
