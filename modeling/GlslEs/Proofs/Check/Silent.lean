import GlslEs.Check.Shader

/-!
# Checks that find no error

A finding of a topic is reported once; every other finding is reported.  So when the reports about
a shader hold no error, then none of its findings without a topic is an error, and what such a
finding would have told does not hold.

* `Silent`: no finding without a topic is an error.
* `Silent.of_check`: a shader about which no error is reported.
-/

namespace GlslEs

/-- No finding that is always reported is an error. -/
def Silent (fs : List Finding) : Prop :=
  ∀ f ∈ fs, f.topic? = none → f.problem.severity ≠ .error

namespace Silent

variable {fs gs : List Finding}

@[simp]
theorem append_iff : Silent (fs ++ gs) ↔ Silent fs ∧ Silent gs := by
  simp only [Silent, List.mem_append, or_imp, forall_and]

theorem flatMap_iff {α : Type} {xs : List α} {f : α → List Finding} :
    Silent (xs.flatMap f) ↔ ∀ x ∈ xs, Silent (f x) := by
  simp only [Silent, List.mem_flatMap]
  grind

/-- A single finding that is an error is not silent. -/
theorem not_singleton {f : Finding} (htopic : f.topic? = none) (herror : f.problem.severity = .error) :
    ¬ Silent [f] := fun h => h f (by simp) htopic herror

/-- A check that finds an error under a condition is silent only if the condition fails. -/
theorem of_findIf {yes : Bool} {problem : Problem} {loc : Location}
    (h : Silent (Context.findIf yes problem loc))
    (htopic : (Finding.mk problem loc).topic? = none)
    (herror : problem.severity = .error) : yes = false := by
  cases yes with
  | false => rfl
  | true => exact absurd h (not_singleton htopic herror)

end Silent

namespace Finding

variable {f : Finding} {reported : List Topic} {fs : List Finding}

/-- What has no topic is never left out. -/
theorem mem_withoutRepeats (htopic : f.topic? = none)
    (h : f ∈ fs) : f ∈ withoutRepeats reported fs := by
  induction fs generalizing reported with
  | nil => cases h
  | cons g gs ih =>
    unfold withoutRepeats
    rcases List.mem_cons.mp h with rfl | h
    · simp [htopic]
    · split
      · exact List.mem_cons_of_mem _ (ih h)
      · split
        · exact ih h
        · exact List.mem_cons_of_mem _ (ih h)

/-- What is reported has been found. -/
theorem mem_of_mem_withoutRepeats (h : f ∈ withoutRepeats reported fs) : f ∈ fs := by
  induction fs generalizing reported with
  | nil => cases h
  | cons g gs ih =>
    unfold withoutRepeats at h
    split at h
    · exact List.mem_cons.mpr ((List.mem_cons.mp h).imp_right ih)
    · split at h
      · exact List.mem_cons_of_mem _ (ih h)
      · exact List.mem_cons.mpr ((List.mem_cons.mp h).imp_right ih)

end Finding

theorem Diagnostic.mem_sort {d : Diagnostic} {ds : List Diagnostic} :
    d ∈ Diagnostic.sort ds ↔ d ∈ ds := List.mem_mergeSort

/-- Where no error is reported, all findings are silent. -/
theorem Silent.of_check {s : Shader} {stage : Stage} {limits : Limits}
    (h : ∀ d ∈ s.check stage limits, d.isError = false) : Silent (s.findings stage limits) := by
  intro f hf htopic herror
  have hmem : f.report ∈ s.check stage limits :=
    Diagnostic.mem_sort.mpr (List.mem_map_of_mem (Finding.mem_withoutRepeats htopic hf))
  have := h _ hmem
  simp [Diagnostic.isError, Finding.report, herror] at this

end GlslEs
