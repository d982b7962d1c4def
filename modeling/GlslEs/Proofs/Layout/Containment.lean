import GlslEs.Layout
import Mathlib.Data.List.Chain
import Mathlib.Data.List.Perm.Subperm
import Mathlib.Logic.Relation

/-!
# Structures inside structures

The sizes of types are computed by going down through the members of structures, no deeper than the
table has entries.  If no structure contains itself, that is deep enough: the sizes satisfy the
equations of a recursion without a bound, and the recursion ends.

* `MemberTable.Contains`: a structure has a member of another one.
* `MemberTable.Ends`: going down from a type ends after a number of levels.
* `MemberTable.Acyclic.ends`: without a cycle it ends within the bound.
* `MemberTable.Acyclic.unfolds`: **without a cycle the sizes are those of the unbounded recursion**.
-/

namespace GlslEs

namespace MemberTable

variable {t : MemberTable}

/-- A structure has a member of another structure, or an array of it. -/
def Contains (t : MemberTable) (a b : String) : Prop := ∃ m ∈ t.members a, m.base = .struct b

/-- A structure contains itself through others. -/
def OnCycle (t : MemberTable) (a : String) : Prop := Relation.TransGen t.Contains a a

/-- No structure contains itself. -/
def Acyclic (t : MemberTable) : Prop := ∀ a, ¬ t.OnCycle a

/-- The types of the members of a type; only a structure has any. -/
def membersOf (t : MemberTable) (ty : Ty) : List Ty :=
  match ty.base with
  | .struct name => t.members name
  | _ => []

theorem exists_of_mem_membersOf {ty m : Ty} (hm : m ∈ t.membersOf ty) :
    ∃ a, ty.base = .struct a ∧ m ∈ t.members a := by
  unfold membersOf at hm
  split at hm
  · exact ⟨_, ‹_›, hm⟩
  · cases hm

theorem mem_map_of_mem_members {a : String} {m : Ty} (hm : m ∈ t.members a) : a ∈ t.map (·.1) := by
  unfold members at hm
  induction t with
  | nil => simp at hm
  | cons entry t ih =>
    obtain ⟨name, types⟩ := entry
    rw [List.lookup_cons] at hm
    by_cases hname : a = name
    · simp [hname]
    · rw [beq_eq_false_iff_ne.mpr hname] at hm
      exact List.mem_cons_of_mem _ (ih hm)

/-! ### Going down through members -/

/-- Going down from a type through members ends after a number of levels. -/
def Ends (t : MemberTable) : Nat → Ty → Prop
  | 0, _ => False
  | depth + 1, ty => ∀ m ∈ t.membersOf ty, Ends t depth m

/-- What does not end passes through as many structures as there are levels. -/
theorem exists_chain_of_not_ends {d : Nat} {ty : Ty} (h : ¬ t.Ends d ty) :
    ∃ names : List String, names.length = d ∧ names.IsChain t.Contains ∧
      (∀ a ∈ names, a ∈ t.map (·.1)) ∧ ∀ a ∈ names.head?, ty.base = .struct a := by
  induction d generalizing ty with
  | zero => exact ⟨[], rfl, List.isChain_nil, by simp, by simp⟩
  | succ d ih =>
    simp only [Ends, not_forall] at h
    obtain ⟨m, hm, hnot⟩ := h
    obtain ⟨names, hlength, hchain, hkeys, hhead⟩ := ih hnot
    obtain ⟨a, ha, hma⟩ := exists_of_mem_membersOf hm
    refine ⟨a :: names, by simp [hlength], ?_, ?_, ?_⟩
    · exact List.isChain_cons.mpr ⟨fun b hb => ⟨m, hma, hhead b hb⟩, hchain⟩
    · exact List.forall_mem_cons.mpr ⟨mem_map_of_mem_members hma, hkeys⟩
    · intro b hb
      obtain rfl := Option.mem_some_iff.mp hb
      exact ha

/-- Without a cycle, a chain of structures has no repetition. -/
theorem Acyclic.nodup_of_isChain (h : t.Acyclic) {names : List String}
    (hchain : names.IsChain t.Contains) : names.Nodup := by
  have hpairs : names.Pairwise (Relation.TransGen t.Contains) :=
    (hchain.imp fun _ _ => .single).pairwise
  refine hpairs.imp ?_
  rintro a _ hab rfl
  exact h a hab

/-- Without a cycle, going down ends within the bound. -/
theorem Acyclic.ends (h : t.Acyclic) (ty : Ty) : t.Ends (t.length + 1) ty := by
  by_contra hnot
  obtain ⟨names, hlength, hchain, hkeys, -⟩ := exists_chain_of_not_ends hnot
  have hsub := ((h.nodup_of_isChain hchain).subperm hkeys).length_le
  rw [List.length_map] at hsub
  omega

theorem Acyclic.ends_member (h : t.Acyclic) {ty m : Ty} (hm : m ∈ t.membersOf ty) :
    t.Ends t.length m := h.ends ty m hm

/-- Without a cycle, going down is well-founded. -/
theorem Acyclic.wellFounded (h : t.Acyclic) : WellFounded fun m ty => m ∈ t.membersOf ty := by
  have hacc : ∀ d ty, t.Ends d ty → Acc (fun m ty => m ∈ t.membersOf ty) ty := by
    intro d
    induction d with
    | zero => exact fun ty hty => hty.elim
    | succ d ih => exact fun ty hty => ⟨_, fun m hm => ih m (hty m hm)⟩
  exact ⟨fun ty => hacc _ ty (h.ends ty)⟩

/-! ### Sizes -/

/-- One level of counting what a type takes, given what its members take and what a type takes that is
no structure. -/
def sizeStep (t : MemberTable) (leaf size : Ty → Nat) (ty : Ty) : Nat :=
  match ty.base with
  | .struct name =>
    Size.mul ((t.members name).foldl (fun n m => Size.add n (size m)) 0) (ty.array.getD 1)
  | _ => leaf ty

/-- The extent of an element of a type, given the extents of the members. -/
def elementStep (t : MemberTable) (extent : Ty → Extent) (ty : Ty) : Extent :=
  match ty.base with
  | .struct name => Extent.ofMembers ((t.members name).map extent)
  | _ => Extent.ofShape ty.shape

/-- One level of laying out a type, given the extents of the members. -/
def std140Step (t : MemberTable) (extent : Ty → Extent) (ty : Ty) : Extent :=
  match ty.array with
  | some count => (t.elementStep extent ty).array count
  | none => t.elementStep extent ty

/-- The sizes of types follow from those of their members, however deep structures are nested. -/
structure Unfolds (t : MemberTable) : Prop where
  slots : ∀ ty, t.slots ty = t.sizeStep Ty.vectorSlots t.slots ty
  locations : ∀ ty, t.locations ty = t.sizeStep (fun ty => Size.mul 1 (ty.array.getD 1)) t.locations ty
  std140 : ∀ ty, t.std140 ty = t.std140Step t.std140 ty

theorem foldl_size_congr {f g : Ty → Nat} {ms : List Ty} (h : ∀ m ∈ ms, f m = g m) (n : Nat) :
    ms.foldl (fun n m => Size.add n (f m)) n = ms.foldl (fun n m => Size.add n (g m)) n := by
  induction ms generalizing n with
  | nil => rfl
  | cons m ms ih =>
    rw [List.foldl_cons, List.foldl_cons, h m List.mem_cons_self,
      ih fun x hx => h x (List.mem_cons_of_mem _ hx)]

section

variable {β : Type} {step : (Ty → β) → Ty → β} {within : Nat → Ty → β}

/-- A recursion that looks at members only gives the same with every bound that is deep enough. -/
theorem Ends.within_eq (hwithin : ∀ d, within (d + 1) = step (within d))
    (hstep : ∀ F G ty, (∀ m ∈ t.membersOf ty, F m = G m) → step F ty = step G ty)
    {d e : Nat} {ty : Ty} (h : t.Ends d ty) (hde : d ≤ e) : within d ty = within e ty := by
  induction d generalizing e ty with
  | zero => exact h.elim
  | succ d ih =>
    obtain ⟨e, rfl⟩ : ∃ n, e = n + 1 := ⟨e - 1, by omega⟩
    rw [hwithin, hwithin]
    exact hstep _ _ ty fun m hm => ih (h m hm) (by omega)

/-- Without a cycle, a recursion that looks at members only does not notice its bound. -/
theorem Acyclic.within_eq (hacyclic : t.Acyclic) (hwithin : ∀ d, within (d + 1) = step (within d))
    (hstep : ∀ F G ty, (∀ m ∈ t.membersOf ty, F m = G m) → step F ty = step G ty) (ty : Ty) :
    within (t.length + 1) ty = step (within (t.length + 1)) ty := by
  calc within (t.length + 1) ty = step (within t.length) ty := by rw [hwithin]
    _ = step (within (t.length + 1)) ty := hstep _ _ ty fun m hm =>
      (hacyclic.ends_member hm).within_eq hwithin hstep (Nat.le_succ t.length)

end

theorem sizeStep_congr (leaf F G : Ty → Nat) (ty : Ty) (h : ∀ m ∈ t.membersOf ty, F m = G m) :
    t.sizeStep leaf F ty = t.sizeStep leaf G ty := by
  unfold sizeStep
  unfold membersOf at h
  split
  · rename_i name hname
    rw [hname] at h
    rw [foldl_size_congr h]
  · rfl

theorem std140Step_congr (F G : Ty → Extent) (ty : Ty) (h : ∀ m ∈ t.membersOf ty, F m = G m) :
    t.std140Step F ty = t.std140Step G ty := by
  have helement : t.elementStep F ty = t.elementStep G ty := by
    unfold elementStep
    unfold membersOf at h
    split
    · rename_i name hname
      rw [hname] at h
      rw [List.map_congr_left h]
    · rfl
  rw [std140Step, std140Step, helement]

/-- **Without a cycle the sizes of types follow from those of their members.** -/
theorem Acyclic.unfolds (h : t.Acyclic) : t.Unfolds where
  slots := h.within_eq (fun _ => funext fun _ => rfl) (sizeStep_congr _)
  locations := h.within_eq (fun _ => funext fun _ => rfl) (sizeStep_congr _)
  std140 := h.within_eq (fun _ => funext fun _ => rfl) std140Step_congr

end MemberTable

end GlslEs
