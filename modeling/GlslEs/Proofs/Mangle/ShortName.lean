import GlslEs.Mangle.Name
import GlslEs.Proofs.Reading.Lexer
import Mathlib.Data.List.Perm.Subperm
import Mathlib.Data.List.Nodup
import Mathlib.Data.List.GetD
import Mathlib.Tactic.Ring
import Mathlib.Tactic.Linarith

/-!
# Short names are enough

Different numbers have different names, and from every number on a usable name is found: among the
names of letters alone there are more than can be taken.

* `ShortName.nth_injective`: a name has one number.
* `ShortName.isUsable_next`: **the search for a usable name succeeds.**
* `ShortName.assign_lookup`, `ShortName.assign_injective`: every symbol gets a usable name, and no two
  get the same one.
-/

namespace GlslEs

namespace ShortName

variable {taken : List String} {n m : Nat} {uses : List Nat} {id : Nat} {name : String}

/-! ### Numbers -/

theorem nodup_nameChars : nameChars.Nodup := by decide

theorem length_nameChars : nameChars.length = 63 := by decide

theorem length_letters : letters.length = 52 := by decide

theorem nameChar_inj (hn : n < 63) (hm : m < 63)
    (h : nameChars.getD n '_' = nameChars.getD m '_') : n = m := by
  rw [← length_nameChars] at hn hm
  rw [List.getD_eq_getElem _ _ hn, List.getD_eq_getElem _ _ hm] at h
  exact (List.Nodup.getElem_inj_iff nodup_nameChars).mp h

theorem letter_eq_nameChar (hn : n < 52) : letters.getD n '_' = nameChars.getD n '_' := by
  rw [← length_letters] at hn
  rw [nameChars, List.getD_append _ _ _ _ hn]

theorem tail_zero : tail 0 = [] := by
  rw [tail]
  rfl

theorem tail_succ (n : Nat) : tail (n + 1) = nameChars.getD (n % 63) '_' :: tail (n / 63) := by
  rw [tail, dif_neg (Nat.succ_ne_zero n), Nat.add_sub_cancel]

theorem tail_injective : Function.Injective tail := by
  intro n
  induction n using Nat.strongRecOn with
  | ind n ih =>
    intro m h
    rcases n with - | n <;> rcases m with - | m
    · rfl
    · rw [tail_zero, tail_succ] at h
      cases h
    · rw [tail_zero, tail_succ] at h
      cases h
    · rw [tail_succ, tail_succ, List.cons.injEq] at h
      have hlast := nameChar_inj (Nat.mod_lt _ (by decide)) (Nat.mod_lt _ (by decide)) h.1
      have hrest := ih (n / 63) (by omega) h.2
      omega

theorem nthChars_injective : Function.Injective nthChars := by
  intro n m h
  obtain ⟨hfirst, hrest⟩ := List.cons.inj h
  have hn : n % 52 < 52 := Nat.mod_lt _ (by decide)
  have hm : m % 52 < 52 := Nat.mod_lt _ (by decide)
  rw [letter_eq_nameChar hn, letter_eq_nameChar hm] at hfirst
  have hmod := nameChar_inj (by omega) (by omega) hfirst
  have hdiv := tail_injective hrest
  omega

/-- **Different numbers have different names.** -/
theorem nth_injective : Function.Injective nth := fun _ _ h =>
  nthChars_injective (String.ofList_injective h)

/-! ### Names of letters alone -/

/-- The number behind the first character of a name of letters alone, out of its number among
those. -/
def lettersTail (n : Nat) : Nat :=
  if h : n = 0 then 0 else (n - 1) % 52 + 1 + 63 * lettersTail ((n - 1) / 52)
termination_by n
decreasing_by omega

theorem lettersTail_zero : lettersTail 0 = 0 := by
  rw [lettersTail]
  rfl

theorem lettersTail_succ (n : Nat) :
    lettersTail (n + 1) = n % 52 + 1 + 63 * lettersTail (n / 52) := by
  rw [lettersTail, dif_neg (Nat.succ_ne_zero n), Nat.add_sub_cancel]

theorem lettersTail_injective : Function.Injective lettersTail := by
  intro n
  induction n using Nat.strongRecOn with
  | ind n ih =>
    intro m h
    rcases n with - | n <;> rcases m with - | m
    · rfl
    · rw [lettersTail_zero, lettersTail_succ] at h
      omega
    · rw [lettersTail_zero, lettersTail_succ] at h
      omega
    · rw [lettersTail_succ, lettersTail_succ] at h
      have hrest := ih (n / 52) (by omega) (show lettersTail (n / 52) = lettersTail (m / 52) by omega)
      omega

theorem lettersTail_le (n : Nat) : lettersTail n ≤ n * n := by
  induction n using Nat.strongRecOn with
  | ind n ih =>
    cases n with
    | zero => rw [lettersTail_zero]
    | succ n =>
      have hrest := ih (n / 52) (by omega)
      have hn := Nat.div_add_mod n 52
      rw [lettersTail_succ]
      generalize n / 52 = p at *
      generalize n % 52 = r at *
      subst hn
      nlinarith [Nat.zero_le (p * r), Nat.zero_le (r * r), Nat.zero_le (p * p)]

theorem letter_mem (hn : n < 52) : letters.getD n '_' ∈ letters := by
  rw [← length_letters] at hn
  rw [List.getD_eq_getElem _ _ hn]
  exact List.getElem_mem hn

theorem tail_lettersTail (n : Nat) : ∀ c ∈ tail (lettersTail n), c ∈ letters := by
  induction n using Nat.strongRecOn with
  | ind n ih =>
    cases n with
    | zero =>
      rw [lettersTail_zero, tail_zero]
      exact fun c hc => absurd hc List.not_mem_nil
    | succ n =>
      have hr : n % 52 < 52 := Nat.mod_lt _ (by decide)
      rw [lettersTail_succ, show n % 52 + 1 + 63 * lettersTail (n / 52) =
        n % 52 + 63 * lettersTail (n / 52) + 1 by omega, tail_succ]
      rw [show (n % 52 + 63 * lettersTail (n / 52)) % 63 = n % 52 by omega,
        show (n % 52 + 63 * lettersTail (n / 52)) / 63 = lettersTail (n / 52) by omega]
      intro c hc
      rcases List.mem_cons.mp hc with rfl | hc
      · rw [← letter_eq_nameChar hr]
        exact letter_mem hr
      · exact ih (n / 52) (by omega) c hc

/-- The number of a name of letters alone, out of its number among those. -/
def lettersNumber (n : Nat) : Nat := n % 52 + 52 * lettersTail (n / 52)

theorem lettersNumber_injective : Function.Injective lettersNumber := by
  intro n m h
  unfold lettersNumber at h
  have hrest : lettersTail (n / 52) = lettersTail (m / 52) := by omega
  have hdiv := lettersTail_injective hrest
  omega

theorem lettersNumber_le (n : Nat) : lettersNumber n ≤ 51 + 52 * (n * n) := by
  have htail := lettersTail_le (n / 52)
  have hdiv : n / 52 * (n / 52) ≤ n * n :=
    Nat.mul_le_mul (Nat.div_le_self n 52) (Nat.div_le_self n 52)
  unfold lettersNumber
  omega

theorem nthChars_lettersNumber (n : Nat) : ∀ c ∈ nthChars (lettersNumber n), c ∈ letters := by
  have hr : n % 52 < 52 := Nat.mod_lt _ (by decide)
  unfold nthChars lettersNumber
  rw [show (n % 52 + 52 * lettersTail (n / 52)) % 52 = n % 52 by omega,
    show (n % 52 + 52 * lettersTail (n / 52)) / 52 = lettersTail (n / 52) by omega]
  intro c hc
  rcases List.mem_cons.mp hc with rfl | hc
  · exact letter_mem hr
  · exact tail_lettersTail _ c hc

/-! ### Usable names -/

theorem not_mem_letters_underscore : '_' ∉ letters := by decide

/-- A name of letters alone is usable, unless it is reserved or taken. -/
theorem isUsable_lettersNumber (hname : nth (lettersNumber n) ∉ reservedWords ++ taken) :
    isUsable taken (nth (lettersNumber n)) = true := by
  have hletters := nthChars_lettersNumber n
  have hunderscore : '_' ∉ nthChars (lettersNumber n) := fun h =>
    not_mem_letters_underscore (hletters _ h)
  obtain ⟨hreserved, htaken⟩ := not_or.mp fun h => hname (List.mem_append.mpr h)
  have hchars : (nth (lettersNumber n)).toList = nthChars (lettersNumber n) := String.toList_ofList
  have hprefix : "gl_".toList.isPrefixOf (nthChars (lettersNumber n)) = false := by
    rw [Bool.eq_false_iff]
    intro h
    obtain ⟨rest, hrest⟩ := List.isPrefixOf_iff_prefix.mp h
    exact hunderscore (hrest ▸ List.mem_append_left rest (by decide))
  simp only [isUsable, hchars, hprefix, Lexer.hasDoubleUnderscore_eq_false hunderscore,
    List.contains_eq_mem, hreserved, htaken, decide_false, Bool.not_false, Bool.and_true]

/-- **Among the first names there is a usable one**: there are more names of letters alone than names
that are taken, reserved or numbered too low. -/
theorem exists_isUsable (taken : List String) (n : Nat) :
    ∃ k, n ≤ k ∧ isUsable taken (nth k) = true ∧
      k < n + 64 * (taken.length + reservedWords.length + n + 1) *
        (taken.length + reservedWords.length + n + 1) := by
  obtain ⟨size, hsize⟩ : ∃ size, taken.length + reservedWords.length + n + 1 = size := ⟨_, rfl⟩
  rw [hsize]
  let low : List String := (List.range n).map nth
  let names : List String := (List.range size).map fun j => nth (lettersNumber j)
  have hnames : names.Nodup :=
    List.nodup_range.map (nth_injective.comp lettersNumber_injective)
  -- the names cannot all be among fewer ones
  have hnot : ¬ names ⊆ reservedWords ++ taken ++ low := by
    intro hsubset
    have hlength := (List.subperm_of_subset hnames hsubset).length_le
    simp only [names, low, List.length_map, List.length_range, List.length_append] at hlength
    omega
  obtain ⟨name, hmem, hname⟩ : ∃ name ∈ names, name ∉ reservedWords ++ taken ++ low := by
    by_contra hall
    push Not at hall
    exact hnot hall
  obtain ⟨j, hj, rfl⟩ := List.mem_map.mp hmem
  rw [List.mem_range] at hj
  obtain ⟨hfree, hlow⟩ := not_or.mp fun h => hname (List.mem_append.mpr h)
  refine ⟨lettersNumber j, ?_, isUsable_lettersNumber hfree, ?_⟩
  · by_contra hlt
    exact hlow (List.mem_map.mpr ⟨_, List.mem_range.mpr (Nat.lt_of_not_le hlt), rfl⟩)
  · have hle := lettersNumber_le j
    have hjj : j * j ≤ (size - 1) * (size - 1) := Nat.mul_le_mul (by omega) (by omega)
    obtain ⟨p, rfl⟩ : ∃ p, size = p + 1 := ⟨size - 1, by omega⟩
    rw [Nat.add_sub_cancel] at hjj
    nlinarith

theorem nextWithin_spec {room k : Nat} (hnk : n ≤ k) (hk : k < n + room)
    (husable : isUsable taken (nth k) = true) :
    n ≤ nextWithin taken room n ∧ isUsable taken (nth (nextWithin taken room n)) = true := by
  induction room generalizing n with
  | zero => omega
  | succ room ih =>
    rw [nextWithin]
    split
    · rename_i h
      exact ⟨Nat.le_refl n, h⟩
    · rename_i h
      have hne : n ≠ k := by
        rintro rfl
        exact h husable
      obtain ⟨hle, hnext⟩ := ih (n := n + 1) (by omega) (by omega)
      exact ⟨by omega, hnext⟩

theorem le_next (taken : List String) (n : Nat) : n ≤ next taken n := by
  obtain ⟨k, hnk, husable, hk⟩ := exists_isUsable taken n
  exact (nextWithin_spec hnk hk husable).1

/-- **The search for a usable name succeeds.** -/
theorem isUsable_next (taken : List String) (n : Nat) : isUsable taken (nth (next taken n)) = true := by
  obtain ⟨k, hnk, husable, hk⟩ := exists_isUsable taken n
  exact (nextWithin_spec hnk hk husable).2

/-! ### Assigned names -/

section Allot

variable {α : Type} {as : List α}

theorem map_fst_allot (taken : List String) (n : Nat) (as : List α) :
    (allot taken n as).map (·.1) = as := by
  induction as generalizing n with
  | nil => rfl
  | cons a as ih => rw [allot, List.map_cons, ih]

theorem mem_allot {p : α × String} (h : p ∈ allot taken n as) :
    isUsable taken p.2 = true ∧ ∃ k, n ≤ k ∧ p.2 = nth k := by
  induction as generalizing n with
  | nil => cases h
  | cons a as ih =>
    rw [allot] at h
    have hle := le_next taken n
    rcases List.mem_cons.mp h with rfl | h
    · exact ⟨isUsable_next taken n, _, hle, rfl⟩
    · obtain ⟨husable, k, hk, hp⟩ := ih h
      exact ⟨husable, k, by omega, hp⟩

/-- No name is given twice. -/
theorem nodup_allot (taken : List String) (n : Nat) (as : List α) :
    ((allot taken n as).map (·.2)).Nodup := by
  induction as generalizing n with
  | nil => exact List.nodup_nil
  | cons a as ih =>
    rw [allot, List.map_cons, List.nodup_cons]
    refine ⟨fun hmem => ?_, ih _⟩
    obtain ⟨p, hp, hname⟩ := List.mem_map.mp hmem
    obtain ⟨-, k, hk, hpk⟩ := mem_allot hp
    have := nth_injective (hname.symm.trans hpk)
    omega

end Allot

theorem mem_byFrequency : id ∈ byFrequency uses ↔ id < uses.length := by
  unfold byFrequency
  rw [List.mem_mergeSort, List.mem_range]

theorem isUsable_of_mem_assign (h : (id, name) ∈ assign taken uses) : isUsable taken name = true := (mem_allot h).1

theorem nodup_assign (taken : List String) (uses : List Nat) :
    ((assign taken uses).map (·.2)).Nodup := nodup_allot taken 0 _

theorem exists_lookup_of_mem {α β : Type} [BEq α] [LawfulBEq α] {ps : List (α × β)} {a : α}
    (h : a ∈ ps.map (·.1)) : ∃ b, ps.lookup a = some b := by
  induction ps with
  | nil => cases h
  | cons p ps ih =>
    rw [List.lookup_cons]
    split
    · exact ⟨_, rfl⟩
    · rename_i hne
      rw [List.map_cons, List.mem_cons] at h
      rcases h with rfl | h
      · simp at hne
      · exact ih h

theorem mem_of_lookup {α β : Type} [BEq α] [LawfulBEq α] {ps : List (α × β)} {a : α} {b : β}
    (h : ps.lookup a = some b) : (a, b) ∈ ps := by
  induction ps with
  | nil => cases h
  | cons p ps ih =>
    rw [List.lookup_cons] at h
    split at h
    · rename_i heq
      cases h
      rw [eq_of_beq heq]
      exact List.mem_cons_self
    · exact List.mem_cons_of_mem _ (ih h)

/-- Every symbol gets a name. -/
theorem assign_lookup (h : id < uses.length) (taken : List String) :
    ∃ name, (assign taken uses).lookup id = some name := by
  refine exists_lookup_of_mem ?_
  rw [assign, map_fst_allot]
  exact mem_byFrequency.mpr h

/-- Symbols with one name are one symbol. -/
theorem assign_injective {id' : Nat} (h : (assign taken uses).lookup id = some name)
    (h' : (assign taken uses).lookup id' = some name) : id = id' := by
  have hnodup := nodup_assign taken uses
  exact congrArg Prod.fst (List.inj_on_of_nodup_map hnodup (mem_of_lookup h) (mem_of_lookup h') rfl)

end ShortName

end GlslEs
