import GlslEs.Proofs.Check.Silent
import GlslEs.Proofs.Reading.Lexer
import GlslEs.Proofs.Resolve.Again

/-!
# Shaders without errors

* `Shader.Accepted`: a shader is read from a text and checked without an error.
* `Shader.resolve_of_parse`: what has been read is already resolved.
* `Shader.exists_accepted`: how a text is seen to have an accepted shader.
-/

namespace GlslEs

theorem Except.eq_ok_of_mapError {ε ε' α : Type} {f : ε → ε'} {x : Except ε α} {a : α}
    (h : x.mapError f = .ok a) : x = .ok a := by
  cases x with
  | error e => cases h
  | ok b => rw [Except.ok.inj h]

namespace Shader

variable {source : String} {stage : Stage} {limits : Limits} {s : Shader} {ds : List Diagnostic}
  {P : Shader → Bool}

theorem exists_resolve_of_parse (h : parse source limits = .ok (s, ds)) :
    ∃ lexemes shader, Lexer.tokenize source = .ok lexemes ∧ ofTokens lexemes = .ok shader ∧
      shader.resolve limits = (s, ds) := by
  unfold parse at h
  obtain ⟨lexemes, hlex, h⟩ := Except.bind_eq_ok_iff.mp h
  have hread : ∀ {r}, ((ofTokens lexemes).mapError syntaxReport >>= fun shader =>
      (pure (shader.resolve limits) : Except Diagnostic _)) = .ok r →
      ∃ shader, ofTokens lexemes = .ok shader ∧ shader.resolve limits = r := by
    intro r hr
    obtain ⟨shader, hshader, hr⟩ := Except.bind_eq_ok_iff.mp hr
    exact ⟨shader, Except.eq_ok_of_mapError hshader, Except.ok.inj hr⟩
  suffices ∃ shader, ofTokens lexemes = .ok shader ∧ shader.resolve limits = (s, ds) by
    obtain ⟨shader, hshader, hresolve⟩ := this
    exact ⟨lexemes, shader, Except.eq_ok_of_mapError hlex, hshader, hresolve⟩
  split at h
  · split at h
    · cases h
    · exact hread h
  · exact hread h

theorem run_of_resolve {shader : Shader} (h : shader.resolve limits = (s, ds))
    (hds : ∀ d ∈ ds, d.isError = false) :
    ∃ n, (shader.declarations.mapM Resolve.topLevel) ⟨.ofBuiltins shader.version limits, []⟩ =
      (s.declarations, ⟨n, []⟩) := by
  obtain ⟨⟨declarations, names, fs⟩, hrun⟩ :
      ∃ r, (shader.declarations.mapM Resolve.topLevel) ⟨.ofBuiltins shader.version limits, []⟩ = r :=
    ⟨_, rfl⟩
  have hresolve : shader.resolve limits =
      ({ shader with declarations }, Diagnostic.sort (fs.map NameFinding.report)) := by
    unfold resolve StateT.run
    rw [hrun]
  obtain ⟨rfl, rfl⟩ := Prod.mk.inj (hresolve.symm.trans h)
  -- All findings about names are errors, so there are none.
  cases fs with
  | nil => exact ⟨names, hrun⟩
  | cons f fs =>
    have := hds f.report (Diagnostic.mem_sort.mpr (by simp))
    cases this

/-- A shader is read from a text without an error, and none is reported about it. -/
structure Accepted (source : String) (stage : Stage) (limits : Limits) (s : Shader) : Prop where
  parsed : ∃ ds, parse source limits = .ok (s, ds) ∧ ∀ d ∈ ds, d.isError = false
  checked : ∀ d ∈ s.check stage limits, d.isError = false

/-- A text is read and checked without an error, and its shader passes a test. -/
def passes (source : String) (stage : Stage) (limits : Limits) (P : Shader → Bool) : Bool :=
  match parse source limits with
  | .ok (s, ds) => ds.all (!·.isError) && (s.check stage limits).all (!·.isError) && P s
  | .error _ => false

theorem exists_accepted (h : passes source stage limits P = true) :
    ∃ s : Shader, s.Accepted source stage limits ∧ P s = true := by
  unfold passes at h
  split at h
  · rename_i s ds hparse
    simp only [Bool.and_eq_true, List.all_eq_true, Bool.not_eq_true'] at h
    exact ⟨s, ⟨⟨ds, hparse, h.1.1⟩, h.1.2⟩, h.2⟩
  · cases h

/-- A text is read without a finding, and its shader passes a test. -/
def parses (source : String) (limits : Limits) (P : Shader → Bool) : Bool :=
  match parse source limits with
  | .ok (s, ds) => ds.isEmpty && P s
  | .error _ => false

theorem exists_parse (source : String) (limits : Limits) (h : parses source limits P = true) :
    ∃ s : Shader, parse source limits = .ok (s, []) ∧ P s = true := by
  unfold parses at h
  split at h
  · rename_i s ds hparse
    obtain ⟨hds, hP⟩ := Bool.and_eq_true_iff.mp h
    rw [List.isEmpty_iff] at hds
    exact ⟨s, hds ▸ hparse, hP⟩
  · cases h

/-- A shader that has been read is resolved to itself. -/
theorem resolve_of_parse (h : parse source limits = .ok (s, ds)) : s.resolve limits = (s, ds) := by
  obtain ⟨_, shader, -, -, hresolve⟩ := exists_resolve_of_parse h
  have hagain := shader.resolve_resolve limits
  rwa [hresolve] at hagain

/-- Nothing is reported about names exactly if nothing is found. -/
theorem resolve_eq_nil_iff (s : Shader) (limits : Limits) :
    (s.resolve limits).2 = [] ↔ (s.resolution limits).2.findings = [] := by
  rw [resolve_eq, ← List.length_eq_zero_iff, ← List.length_eq_zero_iff]
  simp [Diagnostic.sort]

end Shader

end GlslEs
