import GlslEs.Proofs.Layout.Containment
import Mathlib.Algebra.Order.Ring.Nat

/-!
# Exact sizes

Sizes stop at the largest one of 64 bits, in every sum and every product on the way.  Since nothing is
ever taken away again, a size that has been stopped stays at the end: it agrees with the exact size up
to one last stop, and compares with every smaller number as the exact size does.

* `Size.clamp`: a number that is stopped at the largest size.
* `MemberTable.Acyclic.size`: the exact size of a type, by recursion through members without a bound.
* `MemberTable.Acyclic.clamp_slots`, `MemberTable.Acyclic.clamp_locations`: **slots and locations are exact up
  to the largest size**.
-/

namespace GlslEs

namespace Size

variable {a a' b b' : Nat}

/-- A number that is stopped at the largest size. -/
def clamp (n : Nat) : Nat := min n largest

theorem clamp_clamp (n : Nat) : clamp (clamp n) = clamp n := by
  unfold clamp
  omega

theorem clamp_add_congr (ha : clamp a = clamp a') (hb : clamp b = clamp b') :
    clamp (a + b) = clamp (a' + b') := by
  unfold clamp at *
  omega

theorem clamp_mul_congr (ha : clamp a = clamp a') (n : Nat) : clamp (a * n) = clamp (a' * n) := by
  unfold clamp at *
  rcases Nat.eq_zero_or_pos n with rfl | hn
  · simp
  rcases Nat.lt_or_ge a largest with hlt | hge
  · have : a = a' := by omega
    rw [this]
  · -- both factors have been stopped, and so are both products
    have hge' : largest ≤ a' := by omega
    have hmul : largest ≤ a * n := hge.trans (Nat.le_mul_of_pos_right a hn)
    have hmul' : largest ≤ a' * n := hge'.trans (Nat.le_mul_of_pos_right a' hn)
    omega

theorem clamp_add (ha : clamp a = clamp a') (hb : clamp b = clamp b') :
    clamp (add a b) = clamp (a' + b') := (clamp_clamp _).trans (clamp_add_congr ha hb)

theorem clamp_mul (ha : clamp a = clamp a') (n : Nat) : clamp (mul a n) = clamp (a' * n) :=
  (clamp_clamp _).trans (clamp_mul_congr ha n)

/-- Below the largest size, stopping makes no difference. -/
theorem lt_iff_of_clamp_eq (h : clamp a = clamp a') {limit : Int} (hlimit : limit < largest) :
    limit < a ↔ limit < a' := by
  unfold clamp at h
  omega

theorem clamp_foldl {α : Type} {f g : α → Nat} {xs : List α} (h : ∀ x ∈ xs, clamp (f x) = clamp (g x))
    (ha : clamp a = clamp a') :
    clamp (xs.foldl (fun n x => add n (f x)) a) = clamp (a' + (xs.map g).sum) := by
  induction xs generalizing a a' with
  | nil => exact ha
  | cons x xs ih =>
    rw [List.foldl_cons, List.map_cons, List.sum_cons, ← Nat.add_assoc]
    exact ih (fun y hy => h y (List.mem_cons_of_mem x hy)) (clamp_add ha (h x List.mem_cons_self))

end Size

namespace MemberTable

variable {t : MemberTable}

/-- The exact size of a type, given the sizes of the types that are no structures. -/
def Acyclic.size (h : t.Acyclic) (leaf : Ty → Nat) (ty : Ty) : Nat :=
  if ty.isStruct then
    ((t.membersOf ty).attach.map fun m => h.size leaf m.1).sum * ty.array.getD 1
  else leaf ty
termination_by h.wellFounded.wrap ty
decreasing_by exact m.2

/-- The exact number of four-component slots of a type. -/
def Acyclic.slots (h : t.Acyclic) : Ty → Nat := h.size Ty.vectorSlots

/-- The exact number of locations of a type. -/
def Acyclic.locations (h : t.Acyclic) : Ty → Nat := h.size fun ty => ty.array.getD 1

theorem Acyclic.size_eq (h : t.Acyclic) (leaf : Ty → Nat) (ty : Ty) :
    h.size leaf ty =
      if ty.isStruct then ((t.membersOf ty).map (h.size leaf)).sum * ty.array.getD 1 else leaf ty := by
  have hattach : (t.membersOf ty).attach.map (fun m => h.size leaf m.1) =
      (t.membersOf ty).map (h.size leaf) := List.attach_map_val (f := h.size leaf)
  rw [Acyclic.size, hattach]

theorem sizeStep_of_isStruct {ty : Ty} (hty : ty.isStruct = true) (leaf f : Ty → Nat) :
    t.sizeStep leaf f ty =
      Size.mul ((t.membersOf ty).foldl (fun n m => Size.add n (f m)) 0) (ty.array.getD 1) := by
  unfold sizeStep membersOf
  unfold Ty.isStruct at hty
  split at hty
  · simp [*]
  · cases hty

theorem sizeStep_of_not_isStruct {ty : Ty} (hty : ty.isStruct = false) (leaf f : Ty → Nat) :
    t.sizeStep leaf f ty = leaf ty := by
  unfold sizeStep
  unfold Ty.isStruct at hty
  split at hty
  · cases hty
  · simp

/-- A size that is stopped in every sum and product agrees with the exact one. -/
theorem Acyclic.clamp_size (h : t.Acyclic) {f leaf leaf' : Ty → Nat}
    (hf : ∀ ty, f ty = t.sizeStep leaf f ty) (hleaf : ∀ ty, Size.clamp (leaf ty) = Size.clamp (leaf' ty))
    (ty : Ty) : Size.clamp (f ty) = Size.clamp (h.size leaf' ty) := by
  induction ty using h.wellFounded.induction with
  | h ty ih =>
    rw [h.size_eq, hf]
    cases hty : ty.isStruct with
    | false =>
      rw [sizeStep_of_not_isStruct hty]
      exact hleaf ty
    | true =>
      have hsum : Size.clamp ((t.membersOf ty).foldl (fun n m => Size.add n (f m)) 0) =
          Size.clamp (0 + ((t.membersOf ty).map (h.size leaf')).sum) := Size.clamp_foldl ih rfl
      rw [Nat.zero_add] at hsum
      rw [sizeStep_of_isStruct hty]
      exact Size.clamp_mul hsum _

/-- **Slots are exact up to the largest size.** -/
theorem Acyclic.clamp_slots (h : t.Acyclic) (ty : Ty) :
    Size.clamp (t.slots ty) = Size.clamp (h.slots ty) :=
  h.clamp_size h.unfolds.slots (fun _ => rfl) ty

/-- **Locations are exact up to the largest size.** -/
theorem Acyclic.clamp_locations (h : t.Acyclic) (ty : Ty) :
    Size.clamp (t.locations ty) = Size.clamp (h.locations ty) := by
  refine h.clamp_size h.unfolds.locations (fun ty => ?_) ty
  rw [Size.clamp_mul rfl, Nat.one_mul]

end MemberTable

end GlslEs
