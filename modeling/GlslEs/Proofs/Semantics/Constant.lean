import GlslEs.Proofs.Resolve.Constant
import GlslEs.Proofs.Resolve.Resolved
import GlslEs.Proofs.Semantics.Eval
import GlslEs.Proofs.Semantics.Rational

/-!
# The values of constant expressions

What has the qualifier of constants has a value that depends on nothing but variables with that
qualifier, and evaluating it changes nothing, as long as the built-in functions that it may call are
functions of their arguments.

* `Eval.ReadsOnly`: a computation looks at some variables only and changes none.
* `Machine.IsFunctional`: built-in functions without outputs that read no textures are functions of their
  arguments.
* `Machine.readsOnly_eval`: an expression of steady nodes reads constants only.
* `Shader.isConst_sound`: **the qualifier of constants is sound** in every shader that has been resolved.
-/

namespace GlslEs

namespace Eval

variable {F α : Type} {P : String → Prop}

/-- A computation looks at the variables with some names only, and changes nothing. -/
def ReadsOnly (P : String → Prop) (x : Eval F α) : Prop :=
  ∀ σ τ : Store F, (∀ name, P name → σ name = τ name) →
    ∃ r : Option α, x σ = r.map (·, σ) ∧ x τ = r.map (·, τ)

theorem ReadsOnly.read {p : Place} (h : P p.root) : ReadsOnly P (Eval.read p : Eval F (Value F)) := by
  intro σ τ hagree
  refine ⟨Value.read? p.path (σ p.root), rfl, ?_⟩
  rw [hagree p.root h]
  rfl

end Eval

namespace Machine

open Eval

variable {F : Type} {Γ : Environment} {m : Machine F Γ} {n : Names} {P : String → Prop}

/-- Built-in functions without outputs that read no textures are functions of their arguments: what they give
depends on nothing else, and they change nothing. -/
def IsFunctional (m : Machine F Γ) (version : Version) : Prop :=
  ∀ name types f, Builtin.chosen? version name types = some f → f.isTexture = false →
    f.parameters.any (·.isOutput) = false → ∀ args, ∃ r : Option (Value F),
      ∀ σ, m.call (.builtin name) types args σ = r.map (·, σ)

theorem sequenced_readsOnly : Sequenced (F := F) (ReadsOnly P) where
  ofOption a _ _ _ := ⟨a, rfl, rfl⟩
  bind := by
    intro α β x f hx hf σ τ hagree
    obtain ⟨r, hσ, hτ⟩ := hx σ τ hagree
    have hbind : ∀ ω, (x >>= f) ω = (x ω).bind fun r => f r.1 r.2 := fun _ => rfl
    rw [hbind, hbind, hσ, hτ]
    cases r with
    | none => exact ⟨none, rfl, rfl⟩
    | some a => exact hf a σ τ hagree

/-- **An expression of steady nodes looks at constants only and changes nothing**, whether it is evaluated or
found as a place. -/
theorem readsOnly_eval (hm : m.IsFunctional n.version)
    (hP : ∀ name s, n.symbols.find? name = some s → s.qualifiers.constant = true → P name)
    {e : Expr} (h : ∀ x ∈ e.nodes, x.IsSteady n) : ReadsOnly P (m.eval e) ∧ ReadsOnly P (m.evalPlace e) := by
  refine sequenced_readsOnly.eval fun x hx => ?_
  have hself := h x hx
  cases x with
  | var note name =>
    obtain ⟨s, hs, hconst⟩ := hself
    exact .read (hP name s hs hconst)
  | unary note op a => exact hself
  | assign note op a b => exact hself
  | call note callee args =>
    cases callee with
    | user name => exact hself
    | constructor ty => trivial
    | builtin name =>
      obtain ⟨f, hf, htexture, houtput⟩ := hself
      intro vs σ τ _
      obtain ⟨r, hr⟩ := hm name _ f hf htexture houtput vs
      exact ⟨r, hr σ, hr τ⟩
  | _ => trivial

end Machine

namespace Shader

/-- **The qualifier of constants is sound.**  Wherever an expression of a resolved shader has it, no part of
the expression assigns, increments or decrements, is a sequence, or calls a user's function, a texture
function or one with outputs, and every variable in it has a symbol with the qualifier.  So its value is the
same for stores that agree on constants, and evaluating it changes neither. -/
theorem isConst_sound (s : Shader) (limits : Limits) :
    ∀ site ∈ (s.resolve limits).1.sites limits, ∀ e ∈ site.expr.nodes, e.isConst = true →
      (∀ x ∈ e.nodes, x.IsSteady site.names) ∧
      ∀ (F : Type) (Γ : Environment) (m : Machine F Γ), m.IsFunctional site.names.version →
        ∀ σ τ : Store F, (∀ name x, site.names.symbols.find? name = some x →
            x.qualifiers.constant = true → σ name = τ name) →
          ∃ v : Option (Value F), m.eval e σ = v.map (·, σ) ∧ m.eval e τ = v.map (·, τ) := by
  intro site hsite e he hconst
  have hresolve := Expr.resolve_nodes (resolve_expr_of_mem_sites hsite) he
  have hsteady : ∀ x ∈ e.nodes, x.IsSteady site.names := fun x hx =>
    Expr.isSteady_of_isConst (Expr.resolve_nodes hresolve hx) (Expr.isConst_nodes hresolve hconst hx)
  refine ⟨hsteady, fun F Γ m hm σ τ hagree => ?_⟩
  have hreads := Machine.readsOnly_eval (m := m) (n := site.names)
    (P := fun name => ∃ x, site.names.symbols.find? name = some x ∧ x.qualifiers.constant = true)
    hm (fun name x hx hc => ⟨x, hx, hc⟩) hsteady
  exact hreads.1 σ τ fun name ⟨x, hx, hc⟩ => hagree name x hx hc

end Shader

/-! ### A machine with one function -/

namespace Machine

/-- A language with absolute values. -/
def absoluteOnly : Environment where
  typeOf? _ := none
  structs := []
  callType? callee types :=
    if callee = .builtin "abs" ∧ types = [.float] then some ⟨.float, [false]⟩ else none

/-- The absolute value of an argument. -/
def absolute? : List (Argument ℚ) → Option (Value ℚ)
  | [.value (.data [.float x])] => some (.data [.float |x|])
  | _ => none

theorem hasType_of_absolute? {args : List (Argument ℚ)} {v : Value ℚ} (h : absolute? args = some v) :
    v.HasType [] .float := by
  unfold absolute? at h
  split at h
  · cases h
    exact .data rfl (by simp [Datum.scalar])
  · cases h

/-- Exact arithmetic with absolute values. -/
def withAbsolute : Machine ℚ absoluteOnly where
  floats := .rational
  call _ _ args σ := (absolute? args).map (·, σ)
  call_typed {callee types s args σ v σ'} hs _ hσ h := by
    obtain ⟨w, hw, heq⟩ := Option.map_eq_some_iff.mp h
    cases heq
    simp only [absoluteOnly] at hs
    split at hs
    · cases hs
      exact ⟨hasType_of_absolute? hw, hσ⟩
    · cases hs

theorem isFunctional_withAbsolute (version : Version) : withAbsolute.IsFunctional version :=
  fun _ _ _ _ _ _ args => ⟨absolute? args, fun _ => rfl⟩

end Machine

/-- Whether a node calls a function for absolute values. -/
def Expr.isAbsolute : Expr → Bool
  | .call _ (.builtin "abs") _ => true
  | _ => false

/-- An expression that calls a function of a constant, in stores that differ in a variable. -/
theorem Shader.isConst_sound_absolute :
    ∃ s : Shader, parse "const float c=2.;void main()\x7bfloat x=abs(c)+1.;\x7d" .standard = .ok (s, []) ∧
      ∃ site ∈ s.sites .standard, site.expr.isConst = true ∧ site.expr.nodes.any Expr.isAbsolute = true ∧
        ∀ σ τ : Store ℚ, (∀ name, name ≠ "x" → σ name = τ name) →
          ∃ v : Option (Value ℚ), Machine.withAbsolute.eval site.expr σ = v.map (·, σ) ∧
            Machine.withAbsolute.eval site.expr τ = v.map (·, τ) := by
  obtain ⟨s, hparse, h⟩ := exists_parse "const float c=2.;void main()\x7bfloat x=abs(c)+1.;\x7d" .standard
    (P := fun s => (s.sites .standard).any fun site => site.expr.isConst &&
      site.expr.nodes.any Expr.isAbsolute && (site.names.symbols.find? "x").isNone) (by decide +kernel)
  obtain ⟨site, hsite, h⟩ := List.any_eq_true.mp h
  simp only [Bool.and_eq_true, Option.isNone_iff_eq_none] at h
  obtain ⟨⟨hconst, hcall⟩, hx⟩ := h
  refine ⟨s, hparse, site, hsite, hconst, hcall, fun σ τ hagree => ?_⟩
  have hresolved : (s.resolve .standard).1 = s := by rw [resolve_of_parse hparse]
  rw [← hresolved] at hsite
  refine (isConst_sound s .standard site hsite site.expr (Expr.mem_nodes_self _) hconst).2 ℚ _
    Machine.withAbsolute (Machine.isFunctional_withAbsolute _) σ τ fun name y hy _ => hagree name ?_
  rintro rfl
  rw [hx] at hy
  cases hy

end GlslEs
