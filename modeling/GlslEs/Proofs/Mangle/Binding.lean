import GlslEs.Proofs.Mangle.Function
import GlslEs.Proofs.Mangle.ShortName
import GlslEs.Proofs.Reading.Spelled

/-!
# Names after shortening

The walk does not come to the array lengths of members, blocks and prototypes, so these must not name
what gets a new name.  Where that is so, all names of a shader refer to the same declarations after
they have been shortened.

* `Mangle.exists_new`, `Mangle.new_injective`: every function but `main` gets a name of its own.
* `Mangle.keeps`: one declaration with new names.
* `Shader.resolve_mangle`: **a shader with short names is settled, and its names refer to the same
  declarations**.
-/

namespace GlslEs

open Resolve

namespace Mangle

variable {s : Shader} {taken functions : List String} {walks : List Walk} {f g new : String} {d : TopLevel}

/-! ### New names of functions -/

/-- A function has a new name where the name is assigned to a position of the function. -/
theorem mem_functionNaming (taken functions : List String) (walks : List Walk) :
    ∃ uses : List Nat, uses.length = functions.length ∧ ∀ f new,
      (f, new) ∈ functionNaming taken functions walks ↔
        ∃ i, functions[i]? = some f ∧ (i, new) ∈ ShortName.assign taken uses := by
  refine ⟨functions.map fun name => total (walks.map fun w => w.seen.count (.function name)),
    List.length_map _, fun f new => ?_⟩
  unfold functionNaming
  rw [List.mem_filterMap]
  constructor
  · rintro ⟨⟨i, name⟩, hmem, hpair⟩
    obtain ⟨f', hf', heq⟩ := Option.map_eq_some_iff.mp hpair
    obtain ⟨rfl, rfl⟩ := Prod.mk.inj heq
    exact ⟨i, hf', hmem⟩
  · rintro ⟨i, hi, hmem⟩
    exact ⟨(i, new), hmem, Option.map_eq_some_iff.mpr ⟨f, hi, rfl⟩⟩

theorem mem_of_mem_functionNaming (h : (f, new) ∈ functionNaming taken functions walks) : f ∈ functions := by
  obtain ⟨uses, -, hmem⟩ := mem_functionNaming taken functions walks
  obtain ⟨i, hi, -⟩ := (hmem f new).mp h
  exact List.mem_of_getElem? hi

theorem isUsable_functionNaming (h : (f, new) ∈ functionNaming taken functions walks) :
    ShortName.isUsable taken new = true := by
  obtain ⟨uses, -, hmem⟩ := mem_functionNaming taken functions walks
  obtain ⟨i, -, hnew⟩ := (hmem f new).mp h
  exact ShortName.isUsable_of_mem_assign hnew

/-- Functions with one new name are one function. -/
theorem functionNaming_injective (hf : (f, new) ∈ functionNaming taken functions walks)
    (hg : (g, new) ∈ functionNaming taken functions walks) : f = g := by
  obtain ⟨uses, -, hmem⟩ := mem_functionNaming taken functions walks
  obtain ⟨i, hi, hnew⟩ := (hmem f new).mp hf
  obtain ⟨j, hj, hnew'⟩ := (hmem g new).mp hg
  have hij : i = j := congrArg Prod.fst
    (List.inj_on_of_nodup_map (ShortName.nodup_assign taken uses) hnew hnew' rfl)
  rw [hij, hj] at hi
  exact (Option.some.inj hi).symm

/-- Every function in the list gets a name. -/
theorem exists_functionNaming (taken : List String) (walks : List Walk) (hf : f ∈ functions) :
    ∃ new, (functionNaming taken functions walks).lookup f = some new := by
  obtain ⟨uses, hlength, hmem⟩ := mem_functionNaming taken functions walks
  obtain ⟨i, hi, rfl⟩ := List.mem_iff_getElem.mp hf
  obtain ⟨new, hnew⟩ := ShortName.assign_lookup (hlength ▸ hi) taken
  refine ShortName.exists_lookup_of_mem (List.mem_map.mpr ⟨(functions[i], new), ?_, rfl⟩)
  exact (hmem _ new).mpr ⟨i, List.getElem?_eq_getElem hi, ShortName.mem_of_lookup hnew⟩

theorem main_not_mem_functionNames (s : Shader) : "main" ∉ functionNames s := by
  unfold functionNames
  rw [List.mem_eraseDups, List.mem_filter]
  rintro ⟨-, hne⟩
  exact bne_iff_ne.mp hne rfl

theorem isReservedName_of_isUsable (h : ShortName.isUsable taken new = true) : isReservedName new = false := by
  unfold ShortName.isUsable at h
  rw [Bool.and_eq_true, Bool.and_eq_true, Bool.and_eq_true, Bool.not_eq_true'] at h
  exact h.1.1.1

theorem not_mem_of_isUsable (h : ShortName.isUsable taken new = true) : new ∉ taken := by
  simp only [ShortName.isUsable, Bool.and_eq_true, Bool.not_eq_true', List.contains_eq_mem,
    decide_eq_false_iff_not] at h
  exact h.2

/-! ### The names of a shader -/

/-- The names of a shader that no new name may be. -/
def keptNames (s : Shader) : List String :=
  takenNames s (s.declarations.map (walk ⟨functionNames s, {}⟩))

/-- The new names of a shader's functions. -/
def newNames (s : Shader) : List (String × String) :=
  functionNaming (keptNames s) (functionNames s) (s.declarations.map (walk ⟨functionNames s, {}⟩))

/-- One declaration of a shader with new names. -/
def renew (s : Shader) (d : TopLevel) : TopLevel :=
  renamed (functionNames s) (newNames s) (keptNames s ++ (newNames s).map (·.2))
    (walk ⟨functionNames s, {}⟩ d) d

theorem mangle_fst (s : Shader) : s.mangle.1 = { s with declarations := s.declarations.map (renew s) } := by
  have hzip : s.mangle.1 = { s with
      declarations := (s.declarations.zip (s.declarations.map (walk ⟨functionNames s, {}⟩))).map fun p =>
        renamed (functionNames s) (newNames s) (keptNames s ++ (newNames s).map (·.2)) p.2 p.1 } := rfl
  rw [hzip, ← List.map_prod_left_eq_zip, List.map_map]
  rfl

theorem lookup_main (s : Shader) : (newNames s).lookup "main" = none := by
  cases hlookup : (newNames s).lookup "main" with
  | none => rfl
  | some new =>
    exact absurd (mem_of_mem_functionNaming (ShortName.mem_of_lookup hlookup)) (main_not_mem_functionNames s)

theorem main_mem_keptNames (s : Shader) : "main" ∈ keptNames s := List.mem_cons_self

theorem globalNames_subset_keptNames (hd : d ∈ s.declarations) :
    ∀ x ∈ globalNames d, x ∈ keptNames s := fun _ hx =>
  List.mem_append_left _ (List.mem_cons_of_mem _ (List.mem_flatMap.mpr ⟨d, hd, hx⟩))

/-- The names of heads are those of the functions that get new names, and `main`. -/
theorem head_mem {p : Prototype} (hd : d ∈ s.declarations) (hp : d.head? = some p) :
    p.name ∈ "main" :: functionNames s := by
  by_cases hmain : p.name = "main"
  · rw [hmain]
    exact List.mem_cons_self
  · refine List.mem_cons_of_mem _ (List.mem_eraseDups.mpr (List.mem_filter.mpr ⟨?_, by simpa using hmain⟩))
    refine List.mem_filterMap.mpr ⟨d, hd, ?_⟩
    cases d <;> cases hp <;> rfl

theorem function_main (s : Shader) : Naming.function ⟨[], newNames s⟩ "main" = "main" := by
  rw [Naming.function, lookup_main]
  rfl

/-- Every function but `main` gets a new name. -/
theorem exists_new (hf : f ∈ functionNames s) :
    ∃ new, Naming.function ⟨[], newNames s⟩ f = new ∧ (f, new) ∈ newNames s := by
  obtain ⟨new, hnew⟩ := exists_functionNaming (keptNames s)
    (s.declarations.map (walk ⟨functionNames s, {}⟩)) hf
  exact ⟨new, by rw [Naming.function, newNames, hnew]; rfl, ShortName.mem_of_lookup hnew⟩

theorem new_ne_main (hnew : (f, new) ∈ newNames s) : new ≠ "main" := by
  rintro rfl
  exact not_mem_of_isUsable (isUsable_functionNaming hnew) (main_mem_keptNames s)

/-- **Different functions have different names.** -/
theorem new_injective (hf : f ∈ "main" :: functionNames s) (hg : g ∈ "main" :: functionNames s)
    (h : Naming.function ⟨[], newNames s⟩ f = Naming.function ⟨[], newNames s⟩ g) : f = g := by
  rcases List.mem_cons.mp hf with rfl | hf <;> rcases List.mem_cons.mp hg with rfl | hg
  · rfl
  · obtain ⟨new, hnew, hmem⟩ := exists_new hg
    rw [function_main, hnew] at h
    exact absurd h.symm (new_ne_main hmem)
  · obtain ⟨new, hnew, hmem⟩ := exists_new hf
    rw [function_main, hnew] at h
    exact absurd h (new_ne_main hmem)
  · obtain ⟨new, hnew, hmem⟩ := exists_new hf
    obtain ⟨new', hnew', hmem'⟩ := exists_new hg
    rw [hnew, hnew'] at h
    rw [h] at hmem
    exact functionNaming_injective hmem hmem'

/-- Whether the new names of functions can be declared: version 3.00 does not let a function have the
name of a built-in one. -/
def NewNamesApart (s : Shader) : Prop :=
  s.version.isEs3 = true → ∀ p ∈ newNames s, Builtin.isFunction p.2 = false

/-- What is fixed outside of the functions of a shader. -/
def scheme (s : Shader) (hapart : NewNamesApart s) : Scheme where
  naming := newNames s
  known := "main" :: functionNames s
  taken := keptNames s
  version := s.version
  injective _ hf _ hg := new_injective hf hg
  free f hf := by
    rcases List.mem_cons.mp hf with rfl | hf
    · exact .inl (function_main s)
    · obtain ⟨new, hnew, hmem⟩ := exists_new hf
      rw [hnew]
      have husable := isUsable_functionNaming hmem
      refine .inr ⟨isReservedName_of_isUsable husable, not_mem_of_isUsable husable, ?_⟩
      rw [Bool.and_eq_false_imp]
      exact fun hes3 => hapart hes3 _ hmem

/-- The new names of a function's symbols. -/
theorem fits_symbols (s : Shader) (f : Function) :
    Naming.Fits ⟨ShortName.assign (keptNames s ++ (newNames s).map (·.2))
      (symbolUses (walk ⟨functionNames s, {}⟩ (.function f))), newNames s⟩ f.declared.length (keptNames s) where
  exists_name id hid := by
    refine ShortName.assign_lookup ?_ _
    have hnext : (walk ⟨functionNames s, {}⟩ (.function f)).next = f.declared.length :=
      ((Walking.numbers_function f).next _ _).trans (Nat.zero_add _)
    rw [symbolUses, List.length_map, List.length_range, hnext]
    exact hid
  injective h h' := ShortName.assign_injective h h'
  notReserved h := isReservedName_of_isUsable (ShortName.isUsable_of_mem_assign (ShortName.mem_of_lookup h))
  notTaken h hmem := not_mem_of_isUsable (ShortName.isUsable_of_mem_assign (ShortName.mem_of_lookup h))
    (List.mem_append_left _ hmem)

/-! ### Declarations -/

variable {n m : Names} {hapart : NewNamesApart s}

theorem isFixed_congr {ν ν' : Naming} (h : ν.functions = ν'.functions) (x : Site) :
    x.isFixed ν = x.isFixed ν' := by
  have hexpr : ∀ n, Expr.isFixed ν n = Expr.isFixed ν' n := by
    intro n
    funext e
    unfold Expr.isFixed
    split <;> simp only [Naming.function, h]
  unfold Site.isFixed
  rw [hexpr]

/-- What declares nothing. -/
theorem keeps_self (h : (scheme s hapart).Beside n m) (hrun : ∀ k, run (topLevel d) k = (d, ⟨k, []⟩))
    (hsites : ∀ k, d.sites k = []) : (scheme s hapart).Keeps d d n m := by
  refine ⟨?_, by rw [hsites, hsites], ?_⟩
  · rw [settled_iff, hrun]
    exact ⟨rfl, rfl⟩
  · rw [after, after, hrun, hrun]
    exact h

/-- **One declaration with new names is settled, and its names refer to the same declarations.** -/
theorem keeps (h : (scheme s hapart).Beside n m) (hd : d ∈ s.declarations)
    (hsettled : Settled topLevel n d) (hfixed : ∀ x ∈ d.sites n, x.isFixed ⟨[], newNames s⟩ = true) :
    (scheme s hapart).Keeps d (renew s d) n m := by
  have hnames := globalNames_subset_keptNames hd
  cases d with
  | precision p ty loc | layout q loc => exact keeps_self h (fun _ => rfl) fun _ => rfl
  | struct d => exact h.struct hsettled hfixed
  | block b => exact h.block hsettled hfixed hnames
  | prototype p => exact h.prototype hsettled hfixed (head_mem hd rfl)
  | globals d => exact h.globals (functionNames s) hsettled hfixed hnames
  | function f =>
    refine h.function rfl (fits_symbols s f) hsettled (fun x hx => ?_) (head_mem hd rfl)
    rw [isFixed_congr rfl]
    exact hfixed x hx

/-- Several declarations, one after the other. -/
theorem keeps_all (h : (scheme s hapart).Beside n m) {ds : List TopLevel} (hds : ∀ d ∈ ds, d ∈ s.declarations)
    (hsettled : Settled (List.mapM topLevel) n ds)
    (hfixed : ∀ x ∈ TopLevel.sitesAll n ds, x.isFixed ⟨[], newNames s⟩ = true) :
    Settled (List.mapM topLevel) m (ds.map (renew s)) ∧
      siteBindings (TopLevel.sitesAll m (ds.map (renew s))) = siteBindings (TopLevel.sitesAll n ds) := by
  induction ds generalizing n m with
  | nil => exact ⟨settled_mapM_nil _, rfl⟩
  | cons d ds ih =>
    rw [List.forall_mem_cons] at hds
    rw [settled_mapM_cons] at hsettled
    rw [TopLevel.sitesAll] at hfixed
    have hfirst := keeps h hds.1 hsettled.1 fun x hx => hfixed x (List.mem_append_left _ hx)
    obtain ⟨hrest, hbindings⟩ :=
      ih hfirst.beside hds.2 hsettled.2 fun x hx => hfixed x (List.mem_append_right _ hx)
    refine ⟨settled_mapM_cons.mpr ⟨hfirst.settled, hrest⟩, ?_⟩
    rw [List.map_cons, TopLevel.sitesAll, TopLevel.sitesAll, siteBindings_append, siteBindings_append,
      hfirst.bindings, hbindings]

/-- At the beginning of a shader only the built-in variables are known. -/
theorem beside_ofBuiltins (s : Shader) (hapart : NewNamesApart s) (limits : Limits) :
    (scheme s hapart).Beside (.ofBuiltins s.version limits) (.ofBuiltins s.version limits) where
  types := ⟨rfl, rfl⟩
  version := rfl
  symbols := rfl
  functions := rfl
  outermost := Names.outermost_ofBuiltins s.version limits
  known := by
    intro f hf
    cases hf
  taken := by
    rw [Names.symbols_ofBuiltins]
    intro s hs
    cases hs

end Mangle

namespace Shader

variable {source : String} {limits : Limits} {s : Shader}

/-- **Short names refer to the same declarations**, where no array length that the walk does not come to
names a local symbol or calls a function with a new name, and no parameter's array length has the name of
a parameter in front of it. -/
theorem resolve_mangle (h : parse source limits = .ok (s, []))
    (hfixed : ∀ x ∈ s.sites limits, x.isFixed ⟨[], Mangle.newNames s⟩ = true) (hapart : Mangle.NewNamesApart s) :
    s.mangle.1.resolve limits = (s.mangle.1, []) ∧ s.mangle.1.bindings limits = s.bindings limits := by
  obtain ⟨hsettled, hbindings⟩ := Mangle.keeps_all (Mangle.beside_ofBuiltins s hapart limits)
    (fun _ hd => hd) (settled_of_parse h) hfixed
  rw [Mangle.mangle_fst]
  exact ⟨settled_iff.mp hsettled, hbindings⟩

/-- A prototype, parameters with array lengths, symbols that hide others and a constant length. -/
theorem resolve_mangle_hidden : ∃ s : Shader,
    parse ("#version 300 es\nconst int n=2;int f(int x,int v[n]);" ++
        "int f(int x,int v[n])\x7bint y=x;\x7bint y=v[0];x+=y;\x7dfor(int y=0;y<n;y++)x+=v[y];return x+y;\x7d" ++
        "void main()\x7bconst int k=n;int n[k];n[0]=1;f(k,n);\x7d") .standard = .ok (s, []) ∧
      s.mangle.2 = 8 ∧ s.mangle.1.resolve .standard = (s.mangle.1, []) ∧
      s.mangle.1.bindings .standard = s.bindings .standard := by
  obtain ⟨s, hparse, hs⟩ := exists_parse
    ("#version 300 es\nconst int n=2;int f(int x,int v[n]);" ++
      "int f(int x,int v[n])\x7bint y=x;\x7bint y=v[0];x+=y;\x7dfor(int y=0;y<n;y++)x+=v[y];return x+y;\x7d" ++
      "void main()\x7bconst int k=n;int n[k];n[0]=1;f(k,n);\x7d") .standard
    (P := fun s => (s.sites .standard).all (·.isFixed ⟨[], Mangle.newNames s⟩) &&
      (Mangle.newNames s).all (fun p => !Builtin.isFunction p.2) && decide (s.mangle.2 = 8))
    (by decide +kernel)
  simp only [Bool.and_eq_true, List.all_eq_true, decide_eq_true_eq, Bool.not_eq_true'] at hs
  obtain ⟨⟨hfixed, hapart⟩, hcount⟩ := hs
  exact ⟨s, hparse, hcount, resolve_mangle hparse hfixed fun _ => hapart⟩

/-- A call in the length of a member is left with a name that is gone, and the length of a parameter
gets the new name of the parameter in front of it. -/
theorem exists_resolve_mangle_ne_nil :
    (∃ s : Shader, s.Accepted
        "int f();struct S\x7bint a[(f(),2)];\x7d;void main()\x7bf();\x7d" .fragment .standard ∧
        (s.mangle.1.resolve .standard).2.map (·.code) = [.undeclaredIdentifier]) ∧
      ∃ s : Shader, s.Accepted
        "const int n=3;void main(int n,int[n])\x7b\x7dvoid main()\x7b\x7d" .fragment .standard ∧
        (s.mangle.1.resolve .standard).2.map (·.code) = [.undeclaredIdentifier] := by
  constructor
  all_goals
    refine (exists_accepted (P := fun s =>
      decide ((s.mangle.1.resolve .standard).2.map (·.code) = [.undeclaredIdentifier])) ?_).imp
      fun s h => ⟨h.1, of_decide_eq_true h.2⟩
    decide +kernel

end Shader

end GlslEs
