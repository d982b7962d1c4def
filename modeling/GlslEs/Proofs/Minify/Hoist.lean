import GlslEs.Proofs.Execution.Footprint
import GlslEs.Proofs.Execution.Statement
import GlslEs.Proofs.Minify.Shape

/-!
# Hoisting over a condition

An assignment in both branches of a condition becomes one assignment: its target is then found
before the condition is evaluated, and not after it.  That keeps its meaning where the two do not
touch each other.

* `Minify.Hoist`: an assignment that is hoisted, with the condition it moves over.
* `Minify.Hoist.Independent`: the condition changes nothing that finding the target reads, and the
  other way round.
* `Minify.Hoist.Independent.comm`: **an independent target may be found before or after the
  condition**.
-/

namespace GlslEs

open Execution

namespace Expr

/-- The positions in the brackets of an expression that names a place. -/
def positions : Expr → List Expr
  | .swizzle _ base _ _ | .field _ base _ => positions base
  | .index _ base position => positions base ++ [position]
  | _ => []

end Expr

namespace Interpretation

variable {V : Type} (I : Interpretation V)

/-- Whether evaluating an expression may depend on a variable.  A function that is not simple may
depend on any. -/
def mayRead (e : Expr) (x : String) : Bool :=
  e.varNames.contains x || e.calls.any fun f => !(I.routine f).isSimple

/-- Whether evaluating an expression may change a variable. -/
def mayChange (e : Expr) (x : String) : Bool :=
  e.changed.contains x || e.calls.any fun f => !(I.routine f).isSimple

theorem within_place {ρ : Bindings} {R W : Variable → Prop} (e : Expr)
    (h : ∀ p ∈ e.positions, I.Fits ρ R W p) : Within R W (I.place ρ e) := by
  induction e with
  | var note name =>
    rw [place]
    exact .pure _
  | swizzle note base set components ih | field note base name ih =>
    rw [place]
    exact (ih h).bind fun _ => .pure _
  | index note base position iha =>
    rw [place]
    have hbase := iha fun p hp => h p (List.mem_append_left _ hp)
    have hposition := within_eval position (h position (by simp [Expr.positions]))
    exact hbase.bind fun _ => hposition.1.bind fun _ => .pure _
  | _ => exact .ofOption none

/-- A condition stays within what it may read and change. -/
theorem within_holds (ρ : Bindings) (e : Expr) :
    ∃ R W : Variable → Prop, Within R W (I.holds ρ e) ∧ (∀ x, W x → R x) ∧
      (∀ x, R (ρ.find x) → I.mayRead e x = true) ∧ ∀ x, W (ρ.find x) → I.mayChange e x = true := by
  cases hcalls : e.calls.any fun f => !(I.routine f).isSimple with
  | true =>
    -- a function that is not simple may touch everything
    exact ⟨fun _ => True, fun _ => True, .all _, fun _ h => h, fun x _ => by simp [mayRead, hcalls],
      fun x _ => by simp [mayChange, hcalls]⟩
  | false =>
    have hsimple : ∀ f ∈ e.calls, (I.routine f).isSimple = true := by simpa using hcalls
    refine ⟨fun y => y ∈ e.varNames.map ρ.find, fun y => y ∈ e.changed.map ρ.find, ?_, ?_, ?_, ?_⟩
    · have hfits : I.Fits ρ (· ∈ e.varNames.map ρ.find) (· ∈ e.changed.map ρ.find) e :=
        ⟨fun x hx => List.mem_map_of_mem hx, fun x hx => List.mem_map_of_mem hx, hsimple⟩
      exact (within_eval e hfits).1.bind fun _ => .ofOption _
    · exact fun y hy => List.map_subset ρ.find (Expr.changed_subset_varNames e) hy
    · intro x hx
      simp [mayRead, Bindings.find_mem_map_find.mp hx]
    · intro x hx
      simp [mayChange, Bindings.find_mem_map_find.mp hx]

end Interpretation

namespace Minify

/-- An assignment that is hoisted out of the branches of a condition: the target it keeps and the
one that goes. -/
structure Hoist where
  condition : Expr
  op : AssignOp
  target : Expr
  other : Expr

namespace Hoist

/-- The variables that finding the target reads. -/
def varNames (h : Hoist) : List String :=
  h.target.positions.flatMap Expr.varNames ++
    if h.op = .plain then [] else h.target.rootVariable?.toList

/-- Finding the target and evaluating the condition do not touch each other, and the two targets
differ in their notes only.  Their texts are equal, but for floating-point literals it is not shown here
that the digits of two different ones differ. -/
structure Independent {V : Type} (I : Interpretation V) (h : Hoist) : Prop where
  simple : ∀ f ∈ h.target.positions.flatMap Expr.calls, (I.routine f).isSimple = true
  unread : ∀ x ∈ h.target.positions.flatMap Expr.changed, I.mayRead h.condition x = false
  unchanged : ∀ x ∈ h.varNames, I.mayChange h.condition x = false
  alike : h.target.alike h.other = true

variable {V : Type} {I : Interpretation V} {h : Hoist}

theorem independent_iff : h.Independent I ↔
    (∀ f ∈ h.target.positions.flatMap Expr.calls, (I.routine f).isSimple = true) ∧
      (∀ x ∈ h.target.positions.flatMap Expr.changed, I.mayRead h.condition x = false) ∧
      (∀ x ∈ h.varNames, I.mayChange h.condition x = false) ∧ h.target.alike h.other = true :=
  ⟨fun ⟨h₁, h₂, h₃, h₄⟩ => ⟨h₁, h₂, h₃, h₄⟩, fun ⟨h₁, h₂, h₃, h₄⟩ => ⟨h₁, h₂, h₃, h₄⟩⟩

instance : Decidable (h.Independent I) := decidable_of_iff _ independent_iff.symm

/-- Finding an independent target may come before or after the condition. -/
theorem Independent.comm {α : Type} (hi : h.Independent I) (ρ : Bindings)
    (f : Bool → Spot V × Option V → Action V α) :
    (do let b ← I.holds ρ h.condition; let x ← I.place ρ h.target >>= I.target h.op; f b x) =
      (do let x ← I.place ρ h.target >>= I.target h.op; let b ← I.holds ρ h.condition; f b x) := by
  obtain ⟨R, W, hwithin, hsub, hread, hchange⟩ := I.within_holds ρ h.condition
  have hplace : Within (· ∈ h.varNames.map ρ.find)
      (· ∈ (h.target.positions.flatMap Expr.changed).map ρ.find) (I.place ρ h.target) := by
    refine I.within_place h.target fun p hp => ⟨fun x hx => ?_, fun x hx => ?_, fun g hg => ?_⟩
    · exact List.mem_map_of_mem (List.mem_append_left _ (List.mem_flatMap.mpr ⟨p, hp, hx⟩))
    · exact List.mem_map_of_mem (List.mem_flatMap.mpr ⟨p, hp, hx⟩)
    · exact hi.simple g (List.mem_flatMap.mpr ⟨p, hp, hg⟩)
  have htarget : Within (· ∈ h.varNames.map ρ.find)
      (· ∈ (h.target.positions.flatMap Expr.changed).map ρ.find)
      (I.place ρ h.target >>= I.target h.op) := by
    refine hplace.bind_of fun σ p σ' hp => I.within_target fun hop => ?_
    obtain ⟨name, hname, hroot⟩ := I.root_of_place hp
    rw [hroot]
    exact List.mem_map_of_mem (List.mem_append_right _ (by simp [hop, hname]))
  refine hwithin.comm htarget hsub ?_ ?_ ?_ f
  · intro y hy
    obtain ⟨x, hx, rfl⟩ := List.mem_map.mp hy
    obtain ⟨p, hp, hx⟩ := List.mem_flatMap.mp hx
    exact List.mem_map_of_mem (List.mem_append_left _
      (List.mem_flatMap.mpr ⟨p, hp, Expr.changed_subset_varNames p hx⟩))
  · intro y hR hy
    obtain ⟨x, hx, rfl⟩ := List.mem_map.mp hy
    simpa [hread x hR] using hi.unread x hx
  · intro y hy hW
    obtain ⟨x, hx, rfl⟩ := List.mem_map.mp hy
    simpa [hchange x hW] using hi.unchanged x hx

/-- What a statement hoists. -/
def ofStmt? : Stmt → Option Hoist
  | .expr loc (.ternary note condition (.assign first op target value)
      (.assign second op' target' value')) =>
    if (hoist? (.expr loc (.ternary note condition (.assign first op target value)
        (.assign second op' target' value')))).isSome then
      some ⟨condition, op, target, target'⟩
    else none
  | _ => none

end Hoist

/-- Hoisting an independent assignment keeps what the statement does. -/
theorem exec_hoist {V : Type} {I : Interpretation V} {s s' : Stmt} (h : hoist? s = some s')
    (hi : ∀ x ∈ Hoist.ofStmt? s, x.Independent I) (fuel : Nat) (ρ : Bindings) :
    I.exec fuel ρ s' = I.exec fuel ρ s := by
  have hsome : (hoist? s).isSome = true := by rw [h]; rfl
  obtain ⟨loc, note, c, first, second, op, t, t', v, v', rfl, -, -, -, rfl⟩ := hoist?_eq_some h
  obtain hi := hi ⟨c, op, t, t'⟩ (by rw [Hoist.ofStmt?, if_pos hsome]; rfl)
  have hplace : I.place ρ t' = I.place ρ t := (I.eval_of_alike ρ t t' hi.alike).2.symm
  have heval : I.eval ρ (.assign { first with loc := note.loc } op t
      (.ternary ⟨v.ty, .empty, note.loc⟩ c v v')) =
        I.eval ρ (.ternary note c (.assign first op t v) (.assign second op t' v')) := by
    calc
      _ = (do
          let x ← I.place ρ t >>= I.target op
          let b ← I.holds ρ c
          (if b then I.eval ρ v else I.eval ρ v') >>= I.assign op x) := by
        simp only [Interpretation.eval, Interpretation.holds, bind_assoc]
      _ = (do
          let b ← I.holds ρ c
          let x ← I.place ρ t >>= I.target op
          (if b then I.eval ρ v else I.eval ρ v') >>= I.assign op x) :=
        (hi.comm ρ fun b x => (if b then I.eval ρ v else I.eval ρ v') >>= I.assign op x).symm
      _ = _ := by
        simp only [Interpretation.eval, Interpretation.holds, bind_assoc, hplace]
        congr 1
        funext _
        congr 1
        funext b
        split <;> rfl
  simp only [Interpretation.exec, heval]

end Minify

end GlslEs
