import GlslEs.Mangle
import GlslEs.Proofs.Check.Constants
import GlslEs.Proofs.Mangle.Body

/-!
# Names outside of functions

Outside of functions variables keep their names, and functions get new ones that are no names of
variables.  `Scheme.Beside` says that a place in the renamed shader fits to one in the shader: the same
variables are known, and the same functions with new names.

* `Scheme.Beside.carried`: a name means what it means in the shader.
* `Scheme.Beside.declareAll`: variables are declared as they are.
* `Scheme.Beside.declareFunction`: **a function is declared under its new name**.
-/

namespace GlslEs

open Resolve

/-! ### Declaring names -/

namespace Resolve

variable {n : Names} {ss : List Symbol}

theorem after_declareAll_of_accepts {s : Symbol} (hs : n.accepts s = true) :
    after (declareAll (s :: ss)) n = after (declareAll ss) (n.insert s) := by
  have hnext : after (declare s) n = n.insert s := by rw [after, run_declare_of_accepts hs]
  rw [after_declareAll_cons, hnext]

theorem findings_declareAll_cons {s : Symbol} :
    (run (declareAll (s :: ss)) n).2.findings = [] ↔
      n.accepts s = true ∧ (run (declareAll ss) (n.insert s)).2.findings = [] := by
  rw [declareAll, run_bind, behind_findings, List.append_eq_nil_iff, findings_declare_eq_nil]
  refine and_congr_right fun hs => ?_
  rw [run_declare_of_accepts hs]

end Resolve

/-- New names for functions.  Those in `known` get different names, each its old one or one that no
variable and no built-in function has. -/
structure Scheme where
  naming : List (String × String)
  known : List String
  taken : List String
  version : Version
  injective : ∀ f ∈ known, ∀ g ∈ known,
    Naming.function ⟨[], naming⟩ f = Naming.function ⟨[], naming⟩ g → f = g
  free : ∀ f ∈ known, Naming.function ⟨[], naming⟩ f = f ∨
    isReservedName (Naming.function ⟨[], naming⟩ f) = false ∧ Naming.function ⟨[], naming⟩ f ∉ taken ∧
      (version.isEs3 && Builtin.isFunction (Naming.function ⟨[], naming⟩ f)) = false

namespace Scheme

variable {c : Scheme} {n m : Names}

/-- The new name of a function. -/
def new (c : Scheme) (f : String) : String := Naming.function ⟨[], c.naming⟩ f

theorem function_eq_new {ν : Naming} (hν : ν.functions = c.naming) (f : String) : ν.function f = c.new f := by
  rw [Naming.function, hν]
  rfl

/-- A place in the renamed shader fits to one in the shader. -/
structure Beside (c : Scheme) (n m : Names) : Prop where
  types : n.SameTypes m
  version : n.version = c.version
  symbols : m.symbols = n.symbols
  functions : m.functions = n.functions.map (Naming.functionSymbol ⟨[], c.naming⟩)
  outermost : n.Outermost
  known : ∀ f ∈ n.functions, f.name ∈ c.known
  taken : ∀ s ∈ n.symbols.globals, s.name ∈ c.taken

namespace Beside

/-! ### Expressions -/

theorem sameFunction (h : c.Beside n m) {f : String} (hf : n.hasFunction f = true) :
    n.SameFunction f m (c.new f) :=
  sameFunction_of_map (fun x hx y hy => c.injective x.name (h.known x hx) y.name (h.known y hy)) h.functions hf

theorem sameSymbol (h : c.Beside n m) {x : String} {s : Symbol} (hs : n.symbols.find? x = some s) :
    n.symbols.SameSymbol x m.symbols x := by
  rw [SymbolTable.find?_eq_locate?] at hs
  obtain ⟨⟨k, t⟩, hk, rfl⟩ := Option.map_eq_some_iff.mp hs
  have hname : t.name = x := beq_iff_eq.mp (of_locate? hk).2
  refine ⟨k, t, hk, ?_⟩
  rw [h.symbols, hk]
  subst hname
  rfl

/-- Names keep their meaning if variables keep their names. -/
theorem carried (h : c.Beside n m) {ν : Naming} (hν : ν.functions = c.naming) {scopes : LocalScopes} {e : Expr}
    (he : Settled expr n e) (hvar : ∀ note x, .var note x ∈ e.nodes → ν.variable_ scopes x = x) :
    ∀ x ∈ e.nodes, x.Carried ν scopes n m := by
  refine Expr.carried_of_settled he (fun note x s hx hs => ?_) fun note f args hx hf => ?_
  · rw [hvar note x hx]
    exact h.sameSymbol hs
  · rw [function_eq_new hν]
    exact h.sameFunction hf

theorem carries (h : c.Beside n m) : n.Carries ⟨[], c.naming⟩ .empty m :=
  ⟨h.types, fun he => h.carried rfl he fun _ x _ => Naming.variable_eq_self rfl .empty x⟩

/-- What stays as it is keeps its meaning if the functions in it keep their names. -/
theorem carried_fixed (h : c.Beside n m) {e : Expr} (he : Settled expr n e)
    (hfixed : e.nodes.all (Expr.isFixed ⟨[], c.naming⟩ n) = true) : ∀ x ∈ e.nodes, x.Carried {} .empty n m := by
  rw [List.all_eq_true] at hfixed
  refine Expr.carried_of_settled he (fun note x s _ hs => ?_) fun note f args hx hf => ?_
  · rw [Naming.variable_eq_self rfl]
    exact h.sameSymbol hs
  · have hsame := h.sameFunction hf
    rwa [show c.new f = f from eq_of_beq (hfixed _ hx)] at hsame

/-! ### Variables -/

/-- A variable can be declared beside functions with new names. -/
theorem accepts (h : c.Beside n m) {s : Symbol} (hs : n.accepts s = true) (htaken : s.name ∈ c.taken) :
    m.accepts s = true := by
  simp only [Names.accepts, Bool.and_eq_true, Bool.not_eq_true', h.symbols] at hs ⊢
  obtain ⟨⟨hreserved, hfunction⟩, hfree⟩ := hs
  refine ⟨⟨hreserved, ?_⟩, hfree⟩
  have hglobal : n.symbols.isGlobal = true := by simp [SymbolTable.isGlobal, SymbolTable.kind, h.outermost.frames]
  rw [hglobal, Bool.true_and] at hfunction ⊢
  rw [Names.hasFunction, h.functions, List.any_map, List.any_eq_false]
  intro f hf hname
  have hnew : c.new f.name = s.name := beq_iff_eq.mp hname
  rcases c.free f.name (h.known f hf) with hsame | ⟨-, hnot, -⟩
  · have hold : f.name = s.name := hsame.symm.trans hnew
    rw [Names.hasFunction, List.any_eq_false] at hfunction
    exact hfunction f hf (beq_iff_eq.mpr hold)
  · refine hnot ?_
    show c.new f.name ∈ c.taken
    rwa [hnew]

theorem insert (h : c.Beside n m) {s : Symbol} (htaken : s.name ∈ c.taken) :
    c.Beside (n.insert s) (m.insert s) where
  types := ⟨h.types.version, h.types.structs⟩
  version := h.version
  symbols := congrArg (·.insert s) h.symbols
  functions := h.functions
  outermost := h.outermost.insert s
  known := h.known
  taken := by
    have hglobals : (n.insert s).symbols.globals = s :: n.symbols.globals := by
      simp only [Names.insert, SymbolTable.insert, h.outermost.frames]
    rw [hglobals, List.forall_mem_cons]
    exact ⟨htaken, h.taken⟩

theorem withStruct (h : c.Beside n m) (name : String) (ms : List Member) :
    c.Beside (n.withStruct name ms) (m.withStruct name ms) :=
  { h with
    types := ⟨h.types.version, congrArg (_ :: ·) h.types.structs⟩
    outermost := ⟨h.outermost.frames, h.outermost.reserved⟩ }

theorem declareAll (h : c.Beside n m) {ss : List Symbol} (htaken : ∀ s ∈ ss, s.name ∈ c.taken)
    (hss : (run (declareAll ss) n).2.findings = []) :
    (run (Resolve.declareAll ss) m).2.findings = [] ∧
      c.Beside (after (Resolve.declareAll ss) n) (after (Resolve.declareAll ss) m) := by
  induction ss generalizing n m with
  | nil => exact ⟨rfl, h⟩
  | cons s ss ih =>
    rw [List.forall_mem_cons] at htaken
    rw [findings_declareAll_cons] at hss
    have haccepts := h.accepts hss.1 htaken.1
    obtain ⟨hfindings, hbeside⟩ := ih (h.insert htaken.1) htaken.2 hss.2
    rw [findings_declareAll_cons, after_declareAll_of_accepts hss.1, after_declareAll_of_accepts haccepts]
    exact ⟨⟨haccepts, hfindings⟩, hbeside⟩

/-! ### Heads of functions -/

section Functions

variable {p p' : Prototype} {defining : Bool} {f : String}

/-- The functions with a new name are those with the old one. -/
theorem overloads (h : c.Beside n m) (hf : f ∈ c.known) :
    m.overloads (c.new f) = (n.overloads f).map (Naming.functionSymbol ⟨[], c.naming⟩) := by
  unfold Names.overloads
  rw [h.functions, List.filter_map]
  refine congrArg (List.map _) (List.filter_congr fun x hx => ?_)
  rw [Bool.eq_iff_iff, Function.comp_apply, beq_iff_eq, beq_iff_eq]
  exact ⟨c.injective x.name (h.known x hx) f hf, fun hname => congrArg c.new hname⟩

theorem find?_overloads (h : c.Beside n m) (hf : f ∈ c.known) (types : List Ty) :
    (m.overloads (c.new f)).find? (·.parameters == types) =
      ((n.overloads f).find? (·.parameters == types)).map (Naming.functionSymbol ⟨[], c.naming⟩) := by
  rw [h.overloads hf, List.find?_map]
  rfl

/-- A function can be declared under its new name. -/
theorem acceptsFunction (h : c.Beside n m) (hp : n.AcceptsFunction p defining) (hknown : p.name ∈ c.known)
    (hname : p'.name = c.new p.name) (htypes : p'.parameterTypes = p.parameterTypes)
    (hresult : p'.result = p.result) : m.AcceptsFunction p' defining := by
  have hfree : isReservedName p'.name = false ∧ m.symbols.findGlobal? p'.name = none ∧
      (m.version.isEs3 && Builtin.isFunction p'.name) = false := by
    rw [hname, h.symbols, h.types.version]
    rcases c.free p.name hknown with hsame | ⟨hreserved, htaken, hbuiltin⟩
    · rw [show c.new p.name = p.name from hsame]
      exact ⟨hp.notReserved, hp.notVariable, hp.notBuiltin⟩
    · refine ⟨hreserved, List.find?_eq_none.mpr fun s hs hfound => htaken ?_, h.version ▸ hbuiltin⟩
      show c.new p.name ∈ c.taken
      rw [← beq_iff_eq.mp hfound]
      exact h.taken s hs
  refine ⟨hfree.1, hfree.2.1, hfree.2.2, fun f hf => ?_⟩
  rw [hname, htypes, h.find?_overloads hknown] at hf
  obtain ⟨g, hg, rfl⟩ := Option.map_eq_some_iff.mp hf
  rw [hresult]
  exact hp.overload g hg

theorem markDefined_map (h : c.Beside n m) (hf : f ∈ c.known) (types : List Ty) :
    markDefined (c.new f) types (n.functions.map (Naming.functionSymbol ⟨[], c.naming⟩)) =
      (markDefined f types n.functions).map (Naming.functionSymbol ⟨[], c.naming⟩) := by
  unfold markDefined
  rw [List.map_map, List.map_map]
  refine List.map_congr_left fun x hx => ?_
  have hname : (c.new x.name == c.new f) = (x.name == f) := by
    rw [Bool.eq_iff_iff, beq_iff_eq, beq_iff_eq]
    exact ⟨c.injective x.name (h.known x hx) f hf, fun hname => congrArg c.new hname⟩
  have hleft : (Naming.functionSymbol ⟨[], c.naming⟩ x).name = c.new x.name := rfl
  simp only [Function.comp_apply, hleft, hname]
  have hparameters : (Naming.functionSymbol ⟨[], c.naming⟩ x).parameters = x.parameters := rfl
  rw [hparameters]
  by_cases hmatch : (x.name == f && x.parameters == types) = true
  · rw [if_pos hmatch, if_pos hmatch]
    rfl
  · rw [if_neg hmatch, if_neg hmatch]

theorem withFunction (h : c.Beside n m) (hknown : p.name ∈ c.known) (hname : p'.name = c.new p.name)
    (htypes : p'.parameterTypes = p.parameterTypes) (hresult : p'.result = p.result) (hloc : p'.loc = p.loc) :
    c.Beside (n.withFunction p defining) (m.withFunction p' defining) := by
  unfold Names.withFunction
  rw [hname, htypes, hresult, hloc, h.find?_overloads hknown]
  cases (n.overloads p.name).find? (·.parameters == p.parameterTypes) with
  | none =>
    refine { h with
      types := ⟨h.types.version, h.types.structs⟩
      functions := ?_
      outermost := ⟨h.outermost.frames, h.outermost.reserved⟩
      known := ?_ }
    · show m.functions ++ _ = (n.functions ++ _).map _
      rw [h.functions, List.map_append]
      rfl
    · intro f hf
      rcases List.mem_append.mp hf with hf | hf
      · exact h.known f hf
      · rw [List.mem_singleton.mp hf]
        exact hknown
  | some f =>
    cases defining with
    | false => exact h
    | true =>
      refine { h with
        types := ⟨h.types.version, h.types.structs⟩
        functions := ?_
        outermost := ⟨h.outermost.frames, h.outermost.reserved⟩
        known := ?_ }
      · show markDefined _ _ m.functions = (markDefined _ _ n.functions).map _
        rw [h.functions, h.markDefined_map hknown]
      · intro f hf
        obtain ⟨g, hg, rfl⟩ := List.mem_map.mp hf
        split <;> exact h.known g hg

/-- **A function is declared under its new name.** -/
theorem declareFunction (h : c.Beside n m) (hp : (run (declareFunction p defining) n).2.findings = [])
    (hknown : p.name ∈ c.known) (hname : p'.name = c.new p.name) (htypes : p'.parameterTypes = p.parameterTypes)
    (hresult : p'.result = p.result) (hloc : p'.loc = p.loc) :
    (run (Resolve.declareFunction p' defining) m).2.findings = [] ∧
      c.Beside (after (Resolve.declareFunction p defining) n) (after (Resolve.declareFunction p' defining) m) := by
  rw [findings_declareFunction] at hp ⊢
  have hp' := h.acceptsFunction hp hknown hname htypes hresult
  rw [after_declareFunction hp, after_declareFunction hp']
  exact ⟨hp', h.withFunction hknown hname htypes hresult hloc⟩

end Functions

end Beside

end Scheme

end GlslEs
