import GlslEs.Mangle
import GlslEs.Proofs.Mangle.ShortName
import Mathlib.Order.Bounds.Basic

/-!
# All short names in order

Numbers run through all names: the letters are the digits of a numeral in base 63 without a zero, the
first one in base 52.  So no name is missing, and a larger number never has a shorter name.  Since
symbols get names with growing numbers, the one with more uses never gets the longer name.

* `ShortName.exists_nth`: **every name has a number.**
* `ShortName.length_nth_le`: larger numbers do not have shorter names.
* `ShortName.isLeast_next`: the search gives the first usable name.
* `ShortName.numbered_in_order`: **numbering, search and assignment together.**
-/

namespace GlslEs

namespace ShortName

variable {taken : List String} {n m : Nat} {c : Char} {cs : List Char}

/-! ### Every name has a number -/

theorem mem_letters (h : c.isAlpha = true) : c ∈ letters := by
  have hletters : letters = (List.range 26).map (fun k => Char.ofNat (97 + k)) ++
      (List.range 26).map fun k => Char.ofNat (65 + k) := by decide
  have hc : Char.ofNat c.toNat = c := Char.ofNat_toNat c
  rw [hletters, List.mem_append, List.mem_map, List.mem_map]
  delta Char.isAlpha Char.isUpper Char.isLower at h
  simp only [Bool.or_eq_true, decide_eq_true_eq, Bool.and_eq_true, UInt32.le_iff_toNat_le] at h
  rcases h with ⟨hlow, hhigh⟩ | ⟨hlow, hhigh⟩
  · refine .inr ⟨c.toNat - 65, List.mem_range.mpr ?_, ?_⟩
    · change c.toNat ≤ 90 at hhigh
      omega
    · change 65 ≤ c.toNat at hlow
      rw [Nat.add_sub_cancel' hlow, hc]
  · refine .inl ⟨c.toNat - 97, List.mem_range.mpr ?_, ?_⟩
    · change c.toNat ≤ 122 at hhigh
      omega
    · change 97 ≤ c.toNat at hlow
      rw [Nat.add_sub_cancel' hlow, hc]

theorem mem_nameChars (h : c.isAlphanum = true ∨ c = '_') : c ∈ nameChars := by
  have hdigits : "0123456789_".toList = (List.range 10).map (fun k => Char.ofNat (48 + k)) ++ ['_'] := by
    decide
  rw [nameChars, hdigits, List.mem_append, List.mem_append, List.mem_singleton, List.mem_map]
  rcases h with h | h
  · rw [Char.isAlphanum, Bool.or_eq_true] at h
    refine h.imp mem_letters fun h => .inl ?_
    simp only [Char.isDigit, decide_eq_true_eq, Bool.and_eq_true, UInt32.le_iff_toNat_le] at h
    obtain ⟨hlow, hhigh⟩ := h
    change 48 ≤ c.toNat at hlow
    change c.toNat ≤ 57 at hhigh
    exact ⟨c.toNat - 48, List.mem_range.mpr (by omega), by
      rw [Nat.add_sub_cancel' hlow, Char.ofNat_toNat]⟩
  · exact .inr (.inr h)

theorem exists_tail (h : ∀ c ∈ cs, c ∈ nameChars) : ∃ n, tail n = cs := by
  induction cs with
  | nil => exact ⟨0, tail_zero⟩
  | cons c cs ih =>
    rw [List.forall_mem_cons] at h
    obtain ⟨n, rfl⟩ := ih h.2
    obtain ⟨k, hk, rfl⟩ := List.mem_iff_getElem.mp h.1
    have hk' : k < 63 := length_nameChars ▸ hk
    refine ⟨k + 63 * n + 1, ?_⟩
    rw [tail_succ, show (k + 63 * n) % 63 = k by omega, show (k + 63 * n) / 63 = n by omega,
      List.getD_eq_getElem _ _ hk]

/-- **Every name has a number.** -/
theorem exists_nth (hc : c ∈ letters) (hcs : ∀ d ∈ cs, d ∈ nameChars) :
    ∃ n, nth n = String.ofList (c :: cs) := by
  obtain ⟨n, rfl⟩ := exists_tail hcs
  obtain ⟨k, hk, rfl⟩ := List.mem_iff_getElem.mp hc
  have hk' : k < 52 := length_letters ▸ hk
  refine ⟨k + 52 * n, ?_⟩
  rw [nth, nthChars, show (k + 52 * n) % 52 = k by omega, show (k + 52 * n) / 52 = n by omega,
    List.getD_eq_getElem _ _ hk]

/-! ### Lengths -/

theorem length_tail_le (h : n ≤ m) : (tail n).length ≤ (tail m).length := by
  induction n using Nat.strongRecOn generalizing m with
  | ind n ih =>
    cases n with
    | zero => simp [tail_zero]
    | succ n =>
      obtain ⟨m, rfl⟩ := Nat.exists_eq_add_of_le' (Nat.le_trans (Nat.succ_pos n) h)
      rw [tail_succ, tail_succ, List.length_cons, List.length_cons]
      exact Nat.succ_le_succ (ih (n / 63) (by omega) (by omega))

/-- Larger numbers do not have shorter names. -/
theorem length_nth_le (h : n ≤ m) : (nth n).length ≤ (nth m).length := by
  have htail := length_tail_le (Nat.div_le_div_right (c := 52) h)
  simpa [nth, nthChars, ← String.length_toList] using htail

/-! ### Search -/

theorem isUsable_of_lt_nextWithin {room k : Nat} (hn : n ≤ k) (hk : k < nextWithin taken room n) :
    isUsable taken (nth k) = false := by
  induction room generalizing n with
  | zero =>
    rw [nextWithin] at hk
    omega
  | succ room ih =>
    rw [nextWithin] at hk
    split at hk
    · omega
    · rename_i h
      rcases Nat.eq_or_lt_of_le hn with rfl | hn
      · exact Bool.eq_false_iff.mpr h
      · exact ih hn hk

/-- The search gives the first usable name from a number on. -/
theorem isLeast_next (taken : List String) (n : Nat) :
    IsLeast {k | n ≤ k ∧ isUsable taken (nth k) = true} (next taken n) := by
  refine ⟨⟨le_next taken n, isUsable_next taken n⟩, fun k ⟨hn, husable⟩ => ?_⟩
  by_contra hk
  have hfalse := isUsable_of_lt_nextWithin hn (Nat.lt_of_not_le hk)
  rw [husable] at hfalse
  cases hfalse

/-! ### Assignment -/

/-- What is named later has a larger number. -/
theorem pairwise_allot {α : Type} (taken : List String) (n : Nat) (as : List α) :
    (allot taken n as).Pairwise fun p q => ∃ i j, i < j ∧ p.2 = nth i ∧ q.2 = nth j := by
  induction as generalizing n with
  | nil => exact .nil
  | cons a as ih =>
    rw [allot]
    refine .cons (fun q hq => ?_) (ih _)
    obtain ⟨-, j, hj, hname⟩ := mem_allot hq
    exact ⟨_, j, hj, rfl, hname⟩

theorem pairwise_length_allot {α : Type} (taken : List String) (n : Nat) (as : List α) :
    (allot taken n as).Pairwise fun p q => p.2.length ≤ q.2.length := by
  refine (pairwise_allot taken n as).imp ?_
  rintro p q ⟨i, j, hij, hp, hq⟩
  rw [hp, hq]
  exact length_nth_le hij.le

/-- What is used more is named first. -/
theorem pairwise_assign (taken : List String) (uses : List Nat) :
    (assign taken uses).Pairwise fun p q => uses.getD q.1 0 ≤ uses.getD p.1 0 := by
  have hsorted : (byFrequency uses).Pairwise fun a b => uses.getD b 0 ≤ uses.getD a 0 := by
    have h := @List.pairwise_mergeSort Nat (fun a b => decide (uses.getD b 0 ≤ uses.getD a 0))
      (fun a b c hab hbc => by simp only [decide_eq_true_eq] at *; omega)
      (fun a b => by simp only [Bool.or_eq_true, decide_eq_true_eq]; omega) (List.range uses.length)
    exact h.imp of_decide_eq_true
  rw [← map_fst_allot taken 0 (byFrequency uses), List.pairwise_map] at hsorted
  exact hsorted

theorem length_le_of_uses_lt {uses : List Nat} {p q : Nat × String} (hp : p ∈ assign taken uses)
    (hq : q ∈ assign taken uses) (h : uses.getD q.1 0 < uses.getD p.1 0) : p.2.length ≤ q.2.length := by
  obtain ⟨i, hi, rfl⟩ := List.mem_iff_getElem.mp hp
  obtain ⟨j, hj, rfl⟩ := List.mem_iff_getElem.mp hq
  rcases Nat.lt_trichotomy i j with hij | rfl | hij
  · exact List.pairwise_iff_getElem.mp (pairwise_length_allot taken 0 _) i j hi hj hij
  · omega
  · have := List.pairwise_iff_getElem.mp (pairwise_assign taken uses) j i hj hi hij
    omega

theorem getD_symbolUses {w : Walk} {p : Nat × String} (h : p ∈ assign taken (Mangle.symbolUses w)) :
    (Mangle.symbolUses w).getD p.1 0 = w.seen.count (.symbol p.1) := by
  have hmem : p.1 ∈ (assign taken (Mangle.symbolUses w)).map (·.1) := List.mem_map_of_mem h
  rw [assign, map_fst_allot, mem_byFrequency] at hmem
  rw [List.getD_eq_getElem _ _ hmem]
  simp [Mangle.symbolUses]

/-- **Names are numbered in order and given in that order.**  No name has two numbers, larger numbers do
not have shorter names, and every letter with letters, digits and underscores behind it is the name of a
number.  Whatever names are taken, the search ends with the first usable name; names that are given one
after the other are usable, different and of growing length; and of the symbols of a walk one with more
occurrences never has a longer name. -/
theorem numbered_in_order :
    Function.Injective nth ∧ (∀ i j, i ≤ j → (nth i).length ≤ (nth j).length) ∧
      (∀ (c : Char) (cs : List Char), c.isAlpha = true → (∀ d ∈ cs, d.isAlphanum = true ∨ d = '_') →
        ∃ i, nth i = String.ofList (c :: cs)) ∧
      ∀ taken : List String,
        (∀ n, IsLeast {k | n ≤ k ∧ isUsable taken (nth k) = true} (next taken n)) ∧
        (∀ (ids : List Nat) (n : Nat), let names := (allot taken n ids).map (·.2)
          names.length = ids.length ∧ (∀ name ∈ names, isUsable taken name = true) ∧ names.Nodup ∧
            names.Pairwise fun a b => a.length ≤ b.length) ∧
        ∀ (w : Walk) (id id' : Nat), id < w.next → id' < w.next →
          w.seen.count (.symbol id') < w.seen.count (.symbol id) →
          ∃ name name', (assign taken (Mangle.symbolUses w)).lookup id = some name ∧
            (assign taken (Mangle.symbolUses w)).lookup id' = some name' ∧ name.length ≤ name'.length := by
  refine ⟨nth_injective, fun i j => length_nth_le, fun c cs hc hcs =>
    exists_nth (mem_letters hc) fun d hd => mem_nameChars (hcs d hd), fun taken => ⟨isLeast_next taken, ?_, ?_⟩⟩
  · intro ids n names
    refine ⟨?_, ?_, nodup_allot taken n ids, List.pairwise_map.mpr (pairwise_length_allot taken n ids)⟩
    · rw [List.length_map, ← List.length_map (·.1), map_fst_allot]
    · intro name hname
      obtain ⟨p, hp, rfl⟩ := List.mem_map.mp hname
      exact (mem_allot hp).1
  · intro w id id' hid hid' hcount
    have hlength : (Mangle.symbolUses w).length = w.next := by simp [Mangle.symbolUses]
    obtain ⟨name, hname⟩ := assign_lookup (hlength ▸ hid) taken
    obtain ⟨name', hname'⟩ := assign_lookup (hlength ▸ hid') taken
    refine ⟨name, name', hname, hname', length_le_of_uses_lt (mem_of_lookup hname) (mem_of_lookup hname') ?_⟩
    rwa [getD_symbolUses (mem_of_lookup hname), getD_symbolUses (mem_of_lookup hname')]

/-- A name with an underscore, and two symbols of which the second is used more. -/
theorem numbered_in_order_uses : let w : Walk := ⟨.empty, 2, [.symbol 0, .symbol 1, .symbol 1]⟩
    (∃ i, nth i = "x_0") ∧ ∃ name name',
      (assign ["a"] (Mangle.symbolUses w)).lookup 1 = some name ∧
        (assign ["a"] (Mangle.symbolUses w)).lookup 0 = some name' ∧ name.length ≤ name'.length :=
  ⟨numbered_in_order.2.2.1 'x' ['_', '0'] (by decide) (by simp),
    (numbered_in_order.2.2.2 ["a"]).2.2 _ 1 0 (by decide) (by decide) (by decide)⟩

end ShortName

end GlslEs
