import GlslEs.Proofs.Layout.Exact
import Mathlib.Order.Bounds.Basic

/-!
# The exact layout of uniform blocks

A block is laid out in whole numbers, without a largest size: a member starts at the least multiple of
its alignment that is not below the end of the member before it.  The sizes that are computed stop at
the largest one in every sum, product and rounding on the way, but rounding up a size that has been
stopped stops again, so they are the exact sizes up to one last stop.

* `IsNext`: the least multiple of an alignment that is not below an offset.
* `MemberTable.Laid`, `MemberTable.Placed`: the exact layout of a type and of members in a row.
* `Size.roundUp_of_clamp`: rounding agrees with the exact one up to the last stop.
* `MemberTable.Acyclic.std140_exact`: **alignments are 4, 8 or 16, and sizes of types and blocks are exact
  up to the largest size**.
-/

namespace GlslEs

/-! ### Rounding up -/

/-- The least multiple of an alignment that is not below an offset. -/
def IsNext (alignment offset next : Nat) : Prop := IsLeast {k | alignment ∣ k ∧ offset ≤ k} next

theorem isNext_ceil {alignment : Nat} (h : 0 < alignment) (offset : Nat) :
    IsNext alignment offset ((offset + alignment - 1) / alignment * alignment) := by
  have hle : offset ≤ (offset + alignment - 1) / alignment * alignment := by
    have hdiv := Nat.div_add_mod (offset + alignment - 1) alignment
    have hmod := Nat.mod_lt (offset + alignment - 1) h
    rw [Nat.mul_comm] at hdiv
    omega
  refine ⟨⟨Nat.dvd_mul_left _ _, hle⟩, ?_⟩
  rintro _ ⟨⟨m, rfl⟩, hm⟩
  have hlt : (offset + alignment - 1) / alignment < m + 1 := by
    rw [Nat.div_lt_iff_lt_mul h, Nat.add_mul, Nat.mul_comm m]
    omega
  rw [Nat.mul_comm alignment]
  exact Nat.mul_le_mul_right alignment (Nat.le_of_lt_succ hlt)

theorem IsNext.eq_ceil {alignment offset next : Nat} (h : 0 < alignment)
    (hnext : IsNext alignment offset next) :
    next = (offset + alignment - 1) / alignment * alignment :=
  hnext.unique (isNext_ceil h offset)

/-- Rounding up a size that has been stopped is rounding up the exact size. -/
theorem Size.roundUp_of_clamp {n exact alignment next : Nat} (h : 0 < alignment)
    (hn : n = clamp exact) (hnext : IsNext alignment exact next) :
    roundUp n alignment = clamp next := by
  have hround : roundUp n alignment = clamp ((n + alignment - 1) / alignment * alignment) := rfl
  rcases Nat.le_total exact largest with hle | hge
  · rw [hround, hn, show clamp exact = exact from Nat.min_eq_left hle, hnext.eq_ceil h]
  · -- both have been stopped, since rounding up does not go below
    have hn : n = largest := hn.trans (Nat.min_eq_right hge)
    have hup := (isNext_ceil h n).1.2
    have hexact := hnext.1.2
    rw [hround, clamp, clamp]
    omega

/-! ### Exact layouts -/

namespace Shape

/-- The alignment of a value that is neither a structure nor an array. -/
def alignment : Shape → Nat
  | .scalar => 4
  | .vector 2 => 8
  | _ => 16

/-- The bytes of a value that is neither a structure nor an array; every column of a matrix takes
sixteen. -/
def bytes : Shape → Nat
  | .scalar => 4
  | .vector 2 => 8
  | .vector 3 => 12
  | .vector _ => 16
  | .matrix columns _ => columns * 16

theorem ofShape_alignment (s : Shape) : (Extent.ofShape s).alignment = s.alignment := by
  unfold Extent.ofShape alignment
  split <;> simp_all

theorem ofShape_size (s : Shape) : (Extent.ofShape s).size = Size.clamp s.bytes := by
  cases s with
  | scalar => rfl
  | vector n =>
    unfold Extent.ofShape bytes
    split <;> simp_all [Size.clamp, Size.largest]
  | matrix columns rows => exact congrArg Size.clamp (Nat.mul_comm 16 columns)

theorem alignment_cases (s : Shape) : s.alignment = 4 ∨ s.alignment = 8 ∨ s.alignment = 16 := by
  unfold alignment
  split <;> simp

end Shape

namespace MemberTable

variable {extent : Ty → Extent} {ms : List Ty}

mutual

/-- The alignment and the exact size of a type in a uniform block. -/
inductive Laid (t : MemberTable) : Ty → Nat → Nat → Prop
  | value {ty : Ty} (single : ty.array = none) (plain : ty.isStruct = false) :
      Laid t ty ty.shape.alignment ty.shape.bytes
  | struct {name : String} {last size : Nat} (members : Placed t 0 (t.members name) last)
      (next : IsNext 16 last size) : Laid t (.struct name) 16 size
  | array {base : Base} {count alignment size stride : Nat} (element : Laid t ⟨base, none⟩ alignment size)
      (next : IsNext 16 size stride) : Laid t ⟨base, some count⟩ 16 (stride * count)

/-- The end of members in a row that are placed behind an offset. -/
inductive Placed (t : MemberTable) : Nat → List Ty → Nat → Prop
  | nil (offset : Nat) : Placed t offset [] offset
  | cons {offset alignment size start last : Nat} {m : Ty} {ms : List Ty} (member : Laid t m alignment size)
      (next : IsNext alignment offset start) (rest : Placed t (start + size) ms last) :
      Placed t offset (m :: ms) last

end

variable {t : MemberTable}

/-- An extent agrees with the exact layout of a type. -/
structure Fits (t : MemberTable) (ty : Ty) (e : Extent) : Prop where
  alignment : e.alignment = 4 ∨ e.alignment = 8 ∨ e.alignment = 16
  laid : ∃ size, t.Laid ty e.alignment size
  exact : ∀ {alignment size}, t.Laid ty alignment size →
    e.alignment = alignment ∧ e.size = Size.clamp size

theorem Fits.pos {ty : Ty} {e : Extent} (h : t.Fits ty e) : 0 < e.alignment := by
  have := h.alignment
  omega

/-! ### Members in a row -/

theorem exists_placed (h : ∀ m ∈ ms, t.Fits m (extent m))
    (offset : Nat) : ∃ last, t.Placed offset ms last := by
  induction ms generalizing offset with
  | nil => exact ⟨offset, .nil offset⟩
  | cons m ms ih =>
    have hm := h m List.mem_cons_self
    obtain ⟨size, hlaid⟩ := hm.laid
    obtain ⟨last, hrest⟩ := ih (fun x hx => h x (List.mem_cons_of_mem m hx)) (_ + size)
    exact ⟨last, .cons hlaid (isNext_ceil hm.pos offset) hrest⟩

/-- Placing members one after the other ends at the exact offset, up to the largest size. -/
theorem foldl_placeAfter (h : ∀ m ∈ ms, t.Fits m (extent m))
    {n offset last : Nat} (hn : n = Size.clamp offset) (hlast : t.Placed offset ms last) :
    (ms.map extent).foldl Extent.placeAfter n = Size.clamp last := by
  induction ms generalizing n offset with
  | nil =>
    cases hlast
    exact hn
  | cons m ms ih =>
    cases hlast with
    | cons member next rest =>
      have hm := h m List.mem_cons_self
      obtain ⟨rfl, hsize⟩ := hm.exact member
      refine ih (fun x hx => h x (List.mem_cons_of_mem m hx)) ?_ rest
      have hstart := Size.roundUp_of_clamp hm.pos hn next
      calc Size.add (Size.roundUp n (extent m).alignment) (extent m).size
          = Size.clamp (Size.clamp _ + Size.clamp _) := by rw [hstart, hsize]; rfl
        _ = Size.clamp (_ + _) := Size.clamp_add_congr (Size.clamp_clamp _) (Size.clamp_clamp _)

/-- A structure is aligned to sixteen bytes, whatever its members are. -/
theorem alignment_ofMembers {es : List Extent}
    (h : ∀ e ∈ es, e.alignment = 4 ∨ e.alignment = 8 ∨ e.alignment = 16) :
    (Extent.ofMembers es).alignment = 16 := by
  have hfold : ∀ n ≤ 16, es.foldl (fun n e => max n e.alignment) n ≤ 16 := by
    induction es with
    | nil => exact fun n hn => hn
    | cons e es ih =>
      intro n hn
      have he := h e List.mem_cons_self
      exact ih (fun x hx => h x (List.mem_cons_of_mem e hx)) (max n e.alignment) (by omega)
  have hmax := hfold 0 (Nat.zero_le 16)
  have hnext : IsNext 16 (max (es.foldl (fun n e => max n e.alignment) 0) 1) 16 := by
    refine ⟨⟨Nat.dvd_refl 16, by omega⟩, ?_⟩
    rintro k ⟨hk, hle⟩
    exact Nat.le_of_dvd (by omega) hk
  refine (Size.roundUp_of_clamp (by decide) ?_ hnext).trans rfl
  rw [Size.clamp, Size.largest]
  omega

/-! ### Types -/

theorem Fits.ofMembers {name : String} (h : ∀ m ∈ t.members name, t.Fits m (extent m)) :
    t.Fits (.struct name) (Extent.ofMembers ((t.members name).map extent)) := by
  have halignment : (Extent.ofMembers ((t.members name).map extent)).alignment = 16 :=
    alignment_ofMembers (List.forall_mem_map.mpr fun m hm => (h m hm).alignment)
  refine ⟨.inr (.inr halignment), ?_, ?_⟩
  · obtain ⟨last, hplaced⟩ := exists_placed h 0
    rw [halignment]
    exact ⟨_, .struct hplaced (isNext_ceil (by decide) last)⟩
  · intro alignment size hlaid
    cases hlaid with
    | value _ plain => cases plain
    | struct members next =>
      refine ⟨halignment, ?_⟩
      have hlast := foldl_placeAfter h rfl members
      have hsize : (Extent.ofMembers ((t.members name).map extent)).size =
          Size.roundUp (((t.members name).map extent).foldl Extent.placeAfter 0)
            (Extent.ofMembers ((t.members name).map extent)).alignment := rfl
      rw [hsize, halignment]
      exact Size.roundUp_of_clamp (by decide) hlast next

theorem Fits.ofShape {ty : Ty} (single : ty.array = none) (plain : ty.isStruct = false) :
    t.Fits ty (Extent.ofShape ty.shape) := by
  refine ⟨?_, ?_, ?_⟩
  · rw [Shape.ofShape_alignment]
    exact ty.shape.alignment_cases
  · rw [Shape.ofShape_alignment]
    exact ⟨_, .value single plain⟩
  · intro alignment size hlaid
    cases hlaid with
    | value _ _ => exact ⟨ty.shape.ofShape_alignment, ty.shape.ofShape_size⟩
    | struct _ _ => cases plain
    | array _ _ => cases single

theorem Fits.array {base : Base} {e : Extent} (h : t.Fits ⟨base, none⟩ e) (count : Nat) :
    t.Fits ⟨base, some count⟩ (e.array count) := by
  have halignment : (e.array count).alignment = 16 := by
    show Size.roundUp e.alignment 16 = 16
    rcases h.alignment with h | h | h <;> rw [h] <;> rfl
  refine ⟨.inr (.inr halignment), ?_, ?_⟩
  · obtain ⟨size, hlaid⟩ := h.laid
    rw [halignment]
    exact ⟨_, .array hlaid (isNext_ceil (by decide) size)⟩
  · intro alignment size hlaid
    cases hlaid with
    | value single _ => cases single
    | array element next =>
      refine ⟨halignment, ?_⟩
      have hstride := Size.roundUp_of_clamp (by decide) (h.exact element).2 next
      show Size.mul (Size.roundUp e.size 16) count = _
      rw [hstride]
      exact Size.clamp_mul_congr (Size.clamp_clamp _) count

theorem Acyclic.fits_std140 (h : t.Acyclic) (ty : Ty) : t.Fits ty (t.std140 ty) := by
  induction ty using h.wellFounded.induction with
  | h ty ih =>
    have helement : t.Fits ty.element (t.elementStep t.std140 ty) := by
      unfold elementStep
      unfold membersOf at ih
      split
      · rename_i name hname
        rw [hname] at ih
        rw [show ty.element = .struct name from congrArg (Ty.mk · none) hname]
        exact .ofMembers ih
      · refine .ofShape rfl ?_
        unfold Ty.isStruct
        split
        · simp_all [Ty.element]
        · rfl
    rw [h.unfolds.std140, std140Step]
    obtain ⟨base, array⟩ := ty
    cases array with
    | none => exact helement
    | some count => exact helement.array count

/-- **Layouts are exact.**  Without a structure that contains itself, every type has an exact layout, and
what is computed has its alignment, which is 4, 8 or 16, and its size up to the largest one.  The same
holds of the size of a block with any members. -/
theorem Acyclic.std140_exact (h : t.Acyclic) :
    (∀ ty, ((t.std140 ty).alignment = 4 ∨ (t.std140 ty).alignment = 8 ∨ (t.std140 ty).alignment = 16) ∧
      (∃ alignment size, t.Laid ty alignment size) ∧
      ∀ alignment size, t.Laid ty alignment size →
        (t.std140 ty).alignment = alignment ∧ (t.std140 ty).size = min Size.largest size) ∧
    ∀ ms, (∃ last size, t.Placed 0 ms last ∧ IsNext 16 last size) ∧
      ∀ last size, t.Placed 0 ms last → IsNext 16 last size →
        t.blockSize ms = min Size.largest size := by
  have hfits := h.fits_std140
  refine ⟨fun ty => ⟨(hfits ty).alignment, ⟨_, (hfits ty).laid⟩, fun alignment size hlaid => ?_⟩,
    fun ms => ⟨?_, fun last size hplaced hnext => ?_⟩⟩
  · rw [Nat.min_comm]
    exact (hfits ty).exact hlaid
  · obtain ⟨last, hplaced⟩ := exists_placed (fun m _ => hfits m) 0
    exact ⟨last, _, hplaced, isNext_ceil (by decide) last⟩
  · rw [Nat.min_comm]
    exact Size.roundUp_of_clamp (by decide) (foldl_placeAfter (fun m _ => hfits m) rfl hplaced) hnext

/-- An array of structures whose size stops at the largest one, since the exact size is not below it. -/
theorem Acyclic.std140_exact_stopped :
    ∃ t : MemberTable, t = [("A", [.vector .float 3, ⟨.value .float (.matrix 4 4), some 4294967295⟩])] ∧
      t.Acyclic ∧ (t.std140 (.struct "A")).size = 274877906896 ∧
      ∃ alignment size, t.Laid ⟨.struct "A", some 4294967295⟩ alignment size ∧
        Size.largest ≤ size ∧ (t.std140 ⟨.struct "A", some 4294967295⟩).size = min Size.largest size := by
  have hacyclic : MemberTable.Acyclic
      [("A", [.vector .float 3, ⟨.value .float (.matrix 4 4), some 4294967295⟩])] := by
    intro a ha
    obtain ⟨b, ⟨m, hm, hb⟩, -⟩ := Relation.TransGen.head'_iff.mp ha
    by_cases hname : a = "A"
    · simp only [members, hname, List.lookup_cons, beq_self_eq_true, Option.getD_some, List.mem_cons,
        List.not_mem_nil, or_false] at hm
      rcases hm with rfl | rfl <;> cases hb
    · simp [members, List.lookup_cons, beq_eq_false_iff_ne.mpr hname] at hm
  refine ⟨_, rfl, hacyclic, by decide, ?_⟩
  obtain ⟨-, ⟨alignment, size, hlaid⟩, hexact⟩ := hacyclic.std140_exact.1 ⟨.struct "A", some 4294967295⟩
  have hsize := (hexact _ _ hlaid).2
  refine ⟨alignment, size, hlaid, ?_, hsize⟩
  have hstopped : (MemberTable.std140 [("A", [.vector .float 3, ⟨.value .float (.matrix 4 4), some 4294967295⟩])]
      ⟨.struct "A", some 4294967295⟩).size = Size.largest := by decide
  rw [hstopped] at hsize
  omega

end MemberTable

end GlslEs
