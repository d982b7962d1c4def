import GlslEs.Proofs.Check.Accepted
import GlslEs.Proofs.Check.Loops
import Mathlib.Logic.Function.Basic

/-!
# Resolving and checking know the same constants

Resolving keeps symbols in frames that are opened and closed on the way; checking passes the values of
constants down and forgets them.  The two cut scopes differently around the bodies of loops, and only
resolving declares what interface blocks declare.  Still they never differ about the value of a name, as
long as no name is declared twice.

* `Names.SameConstants`: every name has the same value in both.
* `Resolve.Distinct`: a part of a shader in which no name is declared twice.
-/

namespace GlslEs

/-! ### Declaring a name -/

theorem SymbolTable.constant?_enter (t : SymbolTable) (kind : ScopeKind) :
    (t.enter kind).constant? = t.constant? := by
  funext name
  rw [constant?, find?_enter, constant?]

theorem SymbolTable.constant?_insert (t : SymbolTable) (s : Symbol) :
    (t.insert s).constant? = Function.update t.constant? s.name s.value := by
  funext name
  rw [constant?, find?_insert]
  by_cases hname : s.name = name
  · subst hname
    simp
  · rw [beq_eq_false_iff_ne.mpr hname, Function.update_of_ne (Ne.symm hname)]
    rfl

theorem Context.constant?_declare {c : Context} {name : String} (h : c.builtin? name = none)
    (value : Option (List Constant)) :
    (c.declare name value).constant? = Function.update c.constant? name value := by
  have hfind : ∀ other, (c.constants.declare name value).find? other =
      if other == name then some value else c.constants.find? other := by
    intro other
    simp only [Scopes.declare, Scopes.find?, List.findSome?_cons, List.lookup_cons]
    cases other == name <;> rfl
  funext other
  have hother : (c.declare name value).builtin? other = c.builtin? other := rfl
  rw [constant?, hother, ConstantScopes.value?]
  change ((c.constants.declare name value).find? other).join.or _ = _
  rw [hfind]
  by_cases hname : other = name
  · subst hname
    simp [h]
  · rw [beq_eq_false_iff_ne.mpr hname, Function.update_of_ne hname]
    rfl

/-! ### Places that know the same constants -/

/-- Every name has the same value for checking and for resolving; the names of built-in variables are
kept from declarations. -/
structure Names.SameConstants (c : Context) (n : Names) : Prop where
  constant? : c.constant? = n.symbols.constant?
  reserved : ∀ x ∈ c.builtins, Resolve.isReservedName x.name = true

namespace Names.SameConstants

variable {c : Context} {n m : Names}

theorem of_symbols (h : SameConstants c n) (hsymbols : m.symbols = n.symbols) : SameConstants c m :=
  ⟨hsymbols ▸ h.constant?, h.reserved⟩

theorem enter_left (h : SameConstants c n) : SameConstants c.enter n := ⟨h.constant?, h.reserved⟩

theorem enter_right (h : SameConstants c n) (kind : ScopeKind) : SameConstants c (n.enter kind) :=
  ⟨h.constant?.trans (n.symbols.constant?_enter kind).symm, h.reserved⟩

theorem builtin?_eq_none (h : SameConstants c n) {name : String}
    (hname : Resolve.isReservedName name = false) : c.builtin? name = none := by
  refine List.find?_eq_none.mpr fun x hx hfound => ?_
  have := h.reserved x hx
  rw [beq_iff_eq.mp hfound, hname] at this
  cases this

/-- A name that is declared with the same value. -/
theorem declare (h : SameConstants c n) {s : Symbol} (hs : n.accepts s = true) :
    SameConstants (c.declare s.name s.value) (n.insert s) := by
  have hreserved : Resolve.isReservedName s.name = false := by
    simp only [accepts, Bool.and_eq_true, Bool.not_eq_true'] at hs
    exact hs.1.1
  refine ⟨?_, h.reserved⟩
  rw [Context.constant?_declare (h.builtin?_eq_none hreserved), h.constant?]
  exact (n.symbols.constant?_insert s).symm

end Names.SameConstants

/-! ### Resolving without a second declaration -/

namespace Resolve

variable {α β : Type} {n : Names} {act : Resolve α} {s : Symbol}

/-- No name is found to be declared twice. -/
def Distinct (act : Resolve α) (n : Names) : Prop :=
  ∀ f ∈ (run act n).2.findings, f.problem.code ≠ .redefinition

theorem distinct_bind {f : α → Resolve β} [∀ a, Adds (f a)]
    (h : Distinct (act >>= f) n) : Distinct act n ∧ Distinct (f (run act n).1) (after act n) := by
  unfold Distinct at h
  rw [run_bind] at h
  exact ⟨fun x hx => h x (List.mem_append_left _ hx), fun x hx => h x (List.mem_append_right _ hx)⟩

theorem distinct_within {kind : ScopeKind} (h : Distinct (within kind act) n) :
    Distinct act (n.enter kind) := h

theorem distinct_mapM_cons {act : α → Resolve β} [∀ a, Adds (act a)] {a : α} {as : List α}
    (h : Distinct ((a :: as).mapM act) n) :
    Distinct (act a) n ∧ Distinct (as.mapM act) (after (act a) n) := by
  rw [List.mapM_cons] at h
  exact (distinct_bind h).imp_right fun hrest => (distinct_bind hrest).1

theorem distinct_statements_cons {s : Stmt} {ss : List Stmt} (h : Distinct (statements (s :: ss)) n) :
    Distinct (statement false s) n ∧ Distinct (statements ss) (after (statement false s) n) := by
  rw [statements] at h
  exact (distinct_bind h).imp_right fun hrest => (distinct_bind hrest).1

theorem accepts_of_distinct (h : Distinct (declare s) n) : n.accepts s = true := by
  rcases run_declare s n with ⟨haccepts, -⟩ | ⟨-, problem, hcode, hrun⟩
  · exact haccepts
  · exact absurd hcode (h ⟨problem, s.loc⟩ (by rw [hrun]; exact List.mem_singleton_self _))

theorem after_declare_of_distinct (h : Distinct (declare s) n) :
    after (declare s) n = n.insert s := by
  rw [after, run_declare_of_accepts (accepts_of_distinct h)]

end Resolve

/-! ### The top of a shader -/

/-- No frame is open, and no built-in symbol has a name that can be declared. -/
structure Names.Outermost (n : Names) : Prop where
  frames : n.symbols.frames = []
  reserved : ∀ s ∈ n.symbols.builtins, Resolve.isReservedName s.name = true

namespace Names.Outermost

variable {c : Context} {n m : Names}

theorem of_symbols (h : n.Outermost) (hsymbols : m.symbols = n.symbols) : m.Outermost :=
  ⟨hsymbols ▸ h.frames, hsymbols ▸ h.reserved⟩

theorem insert (h : n.Outermost) (s : Symbol) : (n.insert s).Outermost := by
  have hinsert : n.symbols.insert s = { n.symbols with globals := s :: n.symbols.globals } := by
    simp only [SymbolTable.insert, h.frames]
  refine ⟨?_, ?_⟩
  · rw [Names.insert, hinsert]
    exact h.frames
  · rw [Names.insert, hinsert]
    exact h.reserved

theorem after_declare (h : n.Outermost) (s : Symbol) : (Resolve.after (Resolve.declare s) n).Outermost := by
  rcases Resolve.run_declare s n with ⟨-, hrun⟩ | ⟨-, _, -, hrun⟩ <;> rw [Resolve.after, hrun]
  · exact h.insert s
  · exact h

/-- A name that can be declared at the top of a shader has no value before. -/
theorem constant?_eq_none (h : n.Outermost) {s : Symbol} (hs : n.accepts s = true) :
    n.symbols.constant? s.name = none := by
  simp only [accepts, Bool.and_eq_true, Bool.not_eq_true', Option.isNone_iff_eq_none,
    SymbolTable.current, h.frames, List.head?_nil, Option.map_none, Option.getD_none] at hs
  obtain ⟨⟨hreserved, -⟩, hglobals⟩ := hs
  have hbuiltins : SymbolTable.find n.symbols.builtins s.name = none := by
    refine List.find?_eq_none.mpr fun x hx hfound => ?_
    have := h.reserved x hx
    rw [beq_iff_eq.mp hfound, hreserved] at this
    cases this
  simp [SymbolTable.constant?, SymbolTable.find?, h.frames, hglobals, hbuiltins]

/-- What is declared without a value at the top of a shader changes no constant. -/
theorem sameConstants_insert (h : n.Outermost) (hc : SameConstants c n) {s : Symbol}
    (hs : n.accepts s = true) (hvalue : s.value = none) : SameConstants c (n.insert s) := by
  refine ⟨?_, hc.reserved⟩
  have hnone := h.constant?_eq_none hs
  rw [hc.constant?, Names.insert, SymbolTable.constant?_insert, hvalue, ← hnone, Function.update_eq_self]

end Names.Outermost

namespace Resolve

variable {c : Context} {n : Names} {ss : List Symbol} {b : InterfaceBlock}

theorem distinct_declareAll_cons {s : Symbol} (h : Distinct (declareAll (s :: ss)) n) :
    Distinct (declare s) n ∧ Distinct (declareAll ss) (after (declare s) n) := distinct_bind h

theorem after_declareAll_cons (s : Symbol) (ss : List Symbol) :
    after (declareAll (s :: ss)) n = after (declareAll ss) (after (declare s) n) := by
  simp only [after, declareAll, run_bind, behind_names]

theorem outermost_declareAll (h : n.Outermost) (ss : List Symbol) :
    (after (declareAll ss) n).Outermost := by
  induction ss generalizing n with
  | nil => exact h
  | cons s ss ih =>
    rw [after_declareAll_cons]
    exact ih (h.after_declare s)

theorem sameConstants_declareAll (h : n.Outermost) (hc : Names.SameConstants c n)
    (hvalues : ∀ s ∈ ss, s.value = none) (hss : Distinct (declareAll ss) n) :
    Names.SameConstants c (after (declareAll ss) n) := by
  induction ss generalizing n with
  | nil => exact hc
  | cons s ss ih =>
    obtain ⟨hs, hrest⟩ := distinct_declareAll_cons hss
    rw [after_declareAll_cons]
    refine ih (h.after_declare s) ?_ (fun t ht => hvalues t (List.mem_cons_of_mem s ht)) hrest
    rw [after_declare_of_distinct hs]
    exact h.sameConstants_insert hc (accepts_of_distinct hs) (hvalues s List.mem_cons_self)

theorem symbols_after_structDef (d : Option StructDef) :
    (after (d.mapM structDef) n).symbols = n.symbols := by
  cases d with
  | none => rfl
  | some d =>
    rw [after, run_optionMapM_some, run_structDef]

theorem outermost_declaration (h : n.Outermost) (d : Declaration) :
    (after (declaration d) n).Outermost := by
  rw [after_declaration]
  have hstruct := h.of_symbols (symbols_after_structDef (n := n) d.struct)
  generalize after (d.struct.mapM structDef) n = m at hstruct
  generalize d.declarators = ds
  induction ds generalizing m with
  | nil =>
    rw [after_mapM_nil]
    exact hstruct
  | cons x xs ih =>
    rw [after_mapM_cons]
    refine ih _ ?_
    rw [after, run_declarator]
    exact hstruct.after_declare _

/-- The parameters of a function have no values. -/
theorem sameConstants_parameters (h : Names.SameConstants c n) {xs : List Parameter}
    (hxs : Distinct (declareAll (xs.filterMap Parameter.symbol?)) n) :
    Names.SameConstants (c.afterParameters xs) (after (declareAll (xs.filterMap Parameter.symbol?)) n) := by
  induction xs generalizing c n with
  | nil => exact h
  | cons x xs ih =>
    cases hname : x.name with
    | none =>
      have hsymbol : x.symbol? = none := by simp [Parameter.symbol?, hname]
      rw [List.filterMap_cons_none hsymbol] at hxs ⊢
      simpa [Context.afterParameters, hname] using ih h hxs
    | some name =>
      have hsymbol : x.symbol? = some ⟨name, .parameter, x.ty, .empty, none, x.loc⟩ := by
        simp [Parameter.symbol?, hname]
      rw [List.filterMap_cons_some hsymbol] at hxs ⊢
      obtain ⟨hs, hrest⟩ := distinct_declareAll_cons hxs
      have hdeclared := h.declare (accepts_of_distinct hs)
      rw [← after_declare_of_distinct hs] at hdeclared
      rw [after_declareAll_cons]
      simpa [Context.afterParameters, hname] using ih hdeclared hrest

theorem symbols_after_declareFunction (p : Prototype) (defining : Bool) :
    (after (declareFunction p defining) n).symbols = n.symbols := by
  unfold after declareFunction
  rw [run_names_bind]
  repeat' split
  all_goals rfl

theorem symbols_after_prototype (p : Prototype) (defining : Bool) :
    (after (prototype p defining) n).symbols = n.symbols := by
  rw [after, run_prototype]
  exact symbols_after_declareFunction _ defining

theorem symbols_after_function (f : Function) : (after (function f) n).symbols = n.symbols := by
  rw [function_eq, after, run_bind, behind_names, symbols_within .function (by decide)]
  exact symbols_after_prototype f.prototype true

theorem value_of_mem_blockSymbols : ∀ s ∈ blockSymbols n b, s.value = none := by
  intro s hs
  unfold blockSymbols at hs
  split at hs
  · obtain rfl := List.mem_singleton.mp hs
    rfl
  · obtain ⟨m, -, rfl⟩ := List.mem_map.mp hs
    rfl

/-- An interface block declares names without values, which the check passes over. -/
theorem sameConstants_interfaceBlock (h : n.Outermost) (hc : Names.SameConstants c n)
    (hb : Distinct (interfaceBlock b) n) :
    Names.SameConstants c (after (interfaceBlock b) n) ∧ (after (interfaceBlock b) n).Outermost := by
  have hstruct : (n.withStruct b.name (b.members.map n.member)).symbols = n.symbols := rfl
  unfold Distinct at hb
  unfold after
  rw [run_interfaceBlock] at hb ⊢
  have hdistinct : Distinct (declareAll _) (n.withStruct b.name (b.members.map n.member)) :=
    fun f hf => hb f (List.mem_append_right _ hf)
  exact ⟨sameConstants_declareAll (h.of_symbols hstruct) (hc.of_symbols hstruct)
    value_of_mem_blockSymbols hdistinct, outermost_declareAll (h.of_symbols hstruct) _⟩

end Resolve

/-! ### The beginning of a shader -/

theorem Builtin.map_name_allVariables (limits : Limits) :
    (allVariables limits).map (·.name) = (allVariables .standard).map (·.name) := rfl

theorem Builtin.isReservedName_of_mem {limits : Limits} {x : BuiltinVariable} (hx : x ∈ allVariables limits) :
    Resolve.isReservedName x.name = true := by
  have hstandard : ∀ name ∈ (allVariables .standard).map (·.name), Resolve.isReservedName name = true := by
    decide +kernel
  refine hstandard x.name ?_
  rw [← map_name_allVariables limits]
  exact List.mem_map_of_mem hx

theorem Builtin.nodup_name (limits : Limits) : ((allVariables limits).map (·.name)).Nodup := by
  rw [map_name_allVariables]
  decide +kernel

namespace Names

/-- Where names differ, it does not matter from which end one is looked for. -/
theorem find?_reverse_of_nodup {α : Type} (key : α → String) (name : String) {xs : List α}
    (h : (xs.map key).Nodup) : xs.reverse.find? (key · == name) = xs.find? (key · == name) := by
  induction xs with
  | nil => rfl
  | cons x xs ih =>
    obtain ⟨hx, hxs⟩ := List.nodup_cons.mp h
    rw [List.reverse_cons, List.find?_append, ih hxs]
    cases hname : key x == name with
    | false => simp [hname]
    | true =>
      have hnone : xs.find? (key · == name) = none := List.find?_eq_none.mpr fun y hy hfound => by
        rw [beq_iff_eq.mp hname, ← beq_iff_eq.mp hfound] at hx
        exact hx (List.mem_map_of_mem hy)
      simp [hname, hnone]

/-- The symbol of a built-in variable. -/
def builtinSymbol (x : BuiltinVariable) : Symbol :=
  ⟨x.name, .builtin, x.ty, x.qualifiers, x.value?.map ([·]), Location.none⟩

theorem symbols_ofBuiltins (version : Version) (limits : Limits) :
    (ofBuiltins version limits).symbols =
      { builtins :=
          (((Builtin.allVariables limits).filter (·.availableIn version)).map builtinSymbol).reverse } := by
  have hfold : ∀ (xs : List BuiltinVariable) (t : SymbolTable),
      xs.foldl (fun t x => if x.availableIn version then t.declareBuiltin (builtinSymbol x) else t) t =
        { t with builtins := ((xs.filter (·.availableIn version)).map builtinSymbol).reverse ++ t.builtins } := by
    intro xs
    induction xs with
    | nil => exact fun t => rfl
    | cons x xs ih =>
      intro t
      rw [List.foldl_cons, ih]
      by_cases hx : x.availableIn version = true
      · simp [hx, SymbolTable.declareBuiltin]
      · simp [hx]
  exact (hfold (Builtin.allVariables limits) {}).trans (by simp)

theorem outermost_ofBuiltins (version : Version) (limits : Limits) :
    (ofBuiltins version limits).Outermost := by
  refine ⟨by rw [symbols_ofBuiltins], ?_⟩
  rw [symbols_ofBuiltins]
  intro s hs
  obtain ⟨x, hx, rfl⟩ := List.mem_map.mp (List.mem_reverse.mp hs)
  exact Builtin.isReservedName_of_mem (List.mem_of_mem_filter hx)

theorem sameConstants_ofBuiltins (s : Shader) (stage : Stage) (limits : Limits) :
    SameConstants (.ofShader s stage limits) (.ofBuiltins s.version limits) := by
  have hbuiltins : (Context.ofShader s stage limits).builtins =
      (Builtin.allVariables limits).filter (·.availableIn s.version) := rfl
  refine ⟨?_, fun x hx => Builtin.isReservedName_of_mem (List.mem_of_mem_filter (hbuiltins ▸ hx))⟩
  have hnodup : (((Builtin.allVariables limits).filter (·.availableIn s.version)).map (·.name)).Nodup :=
    (List.filter_sublist.map _).nodup (Builtin.nodup_name limits)
  funext name
  have hsymbol : (ofBuiltins s.version limits).symbols.find? name =
      ((Context.ofShader s stage limits).builtin? name).map builtinSymbol := by
    rw [symbols_ofBuiltins, Context.builtin?, hbuiltins, ← find?_reverse_of_nodup _ name hnodup]
    simp only [SymbolTable.find?, SymbolTable.find, List.map_nil, List.nil_append, List.findSome?_cons,
      List.find?_nil, List.findSome?_nil, ← List.map_reverse, List.find?_map, Function.comp_def,
      builtinSymbol]
    cases List.find? _ _ <;> rfl
  rw [SymbolTable.constant?, hsymbol, Context.constant?]
  change none.or _ = _
  cases (Context.ofShader s stage limits).builtin? name <;> rfl

end Names

end GlslEs
