import GlslEs.Proofs.Mangle.TopLevel

/-!
# Renamed functions

The head of a function is resolved outside, and its parameters are declared for the body.  The walk
declares a parameter before it walks over the array length of the next one, so that a length must not
have the name of a parameter in front of it.

* `Naming.Fits`: the new names of a function's symbols.
* `Setting.carries_parameters`: renamed parameters.
* `Scheme.Beside.function`: **a renamed function is settled, and its names refer to the same
  declarations**.
-/

namespace GlslEs

open Resolve

/-- Every symbol below a number has a new name of its own, which is neither reserved nor taken. -/
structure Naming.Fits (ν : Naming) (total : Nat) (taken : List String) : Prop where
  exists_name : ∀ id < total, ∃ new, ν.symbols.lookup id = some new
  injective : ∀ {i j name}, ν.symbols.lookup i = some name → ν.symbols.lookup j = some name → i = j
  notReserved : ∀ {id name}, ν.symbols.lookup id = some name → isReservedName name = false
  notTaken : ∀ {id name}, ν.symbols.lookup id = some name → name ∉ taken

namespace Walking

variable (plan : WalkPlan) (w : Walk) (x : Parameter)

/-- What a walk makes of a parameter: its array length comes before its name. -/
theorem parameter_run : ∃ seen, parameter x plan w =
    ({ x with
        array := x.array.map (·.rename plan.naming w.scopes)
        name := (x.name.mapM declare plan ⟨w.scopes, w.next, seen⟩).1 },
      (x.name.mapM declare plan ⟨w.scopes, w.next, seen⟩).2) := by
  obtain ⟨ty, hty⟩ : ∃ seen, seen = w.seen ++ Occurrence.ofType x.ty := ⟨_, rfl⟩
  obtain ⟨seen, harray⟩ := array_state plan ⟨w.scopes, w.next, ty⟩ x.array
  have hrun : parameter x plan w =
      ({ x with
          array := (array x.array plan ⟨w.scopes, w.next, ty⟩).1
          name := (x.name.mapM declare plan (array x.array plan ⟨w.scopes, w.next, ty⟩).2).1 },
        (x.name.mapM declare plan (array x.array plan ⟨w.scopes, w.next, ty⟩).2).2) := by
    rw [hty]
    rfl
  rw [hrun, array_value, harray]
  exact ⟨seen, rfl⟩

theorem parameter_eq_of_none (hname : x.name = none) :
    ∃ seen, parameter x plan w =
      ({ x with array := x.array.map (·.rename plan.naming w.scopes) }, ⟨w.scopes, w.next, seen⟩) := by
  obtain ⟨seen, hrun⟩ := parameter_run plan w x
  rw [hrun, hname]
  exact ⟨seen, rfl⟩

theorem parameter_eq_of_some {name new : String} (hname : x.name = some name)
    (hnew : plan.naming.symbols.lookup w.next = some new) :
    ∃ seen, parameter x plan w =
      ({ x with array := x.array.map (·.rename plan.naming w.scopes), name := some new },
        ⟨w.scopes.declare name w.next, w.next + 1, seen⟩) := by
  obtain ⟨seen, hrun⟩ := parameter_run plan w x
  have hdeclare : (some name).mapM declare plan ⟨w.scopes, w.next, seen⟩ =
      (some (declare name plan ⟨w.scopes, w.next, seen⟩).1,
        (declare name plan ⟨w.scopes, w.next, seen⟩).2) := rfl
  rw [hrun, hname, hdeclare, declare_eq plan ⟨w.scopes, w.next, seen⟩ name hnew]
  exact ⟨_, rfl⟩

end Walking

theorem siteBindings_parameterSites (n : Names) (before : List String) (xs : List Parameter) :
    siteBindings (parameterSites n before xs) =
      xs.flatMap fun x => (lengthExprs x.array).flatMap (Expr.bindings n) := by
  induction xs generalizing before with
  | nil => rfl
  | cons x xs ih =>
    rw [parameterSites, siteBindings_append, siteBindings_map, ih, List.flatMap_cons]

namespace Setting

variable {c : Setting} {d : Scheme} {n m k l : Names} {w : Walk} {before : List String}
  {xs : List Parameter}

/-- What holds of renamed parameters: resolved outside of the function they keep their types and what
their lengths refer to, and inside they are declared under their new names. -/
structure CarriesParameters (c : Setting) (xs : List Parameter) (n m k l : Names) (w : Walk) : Prop where
  settled : ∀ x ∈ (xs.mapM Walking.parameter c.plan w).1, l.parameter x = x ∧ l.lengthFindings x.array = []
  types : (xs.mapM Walking.parameter c.plan w).1.map (·.ty) = xs.map (·.ty)
  bindings : ((xs.mapM Walking.parameter c.plan w).1.flatMap fun x =>
      (lengthExprs x.array).flatMap (Expr.bindings l)) =
    xs.flatMap fun x => (lengthExprs x.array).flatMap (Expr.bindings k)
  declared : (run (declareAll ((xs.mapM Walking.parameter c.plan w).1.filterMap Parameter.symbol?))
    m).2.findings = []
  follows : c.Follows (after (declareAll (xs.filterMap Parameter.symbol?)) n)
    (xs.mapM Walking.parameter c.plan w).2
    (after (declareAll ((xs.mapM Walking.parameter c.plan w).1.filterMap Parameter.symbol?)) m)

/-- One parameter in front of others, given what the walk makes of it. -/
theorem CarriesParameters.cons {x x' : Parameter} {w' : Walk} {n' m' : Names}
    (hwalk : Walking.parameter x c.plan w = (x', w')) (htype : x'.ty = x.ty)
    (hsettled : l.parameter x' = x' ∧ l.lengthFindings x'.array = [])
    (hbindings : (lengthExprs x'.array).flatMap (Expr.bindings l) = (lengthExprs x.array).flatMap (Expr.bindings k))
    (hn : after (declareAll ((x :: xs).filterMap Parameter.symbol?)) n =
      after (declareAll (xs.filterMap Parameter.symbol?)) n')
    (hm : ∀ ys, (run (declareAll ((x' :: ys).filterMap Parameter.symbol?)) m).2 =
      (run (declareAll (ys.filterMap Parameter.symbol?)) m').2)
    (h : c.CarriesParameters xs n' m' k l w') : c.CarriesParameters (x :: xs) n m k l w := by
  have hmapM : (x :: xs).mapM Walking.parameter c.plan w =
      (x' :: (xs.mapM Walking.parameter c.plan w').1, (xs.mapM Walking.parameter c.plan w').2) := by
    have hunfold : (x :: xs).mapM Walking.parameter c.plan w =
        ((Walking.parameter x c.plan w).1 ::
            (xs.mapM Walking.parameter c.plan (Walking.parameter x c.plan w).2).1,
          (xs.mapM Walking.parameter c.plan (Walking.parameter x c.plan w).2).2) := by
      rw [List.mapM_cons]
      rfl
    rw [hunfold, hwalk]
  refine ⟨?_, ?_, ?_, ?_, ?_⟩ <;> simp only [hmapM]
  · exact List.forall_mem_cons.mpr ⟨hsettled, h.settled⟩
  · rw [List.map_cons, List.map_cons, htype, h.types]
  · rw [List.flatMap_cons, List.flatMap_cons, h.bindings, hbindings]
  · rw [hm]
    exact h.declared
  · have hafter : ∀ ys, after (declareAll ((x' :: ys).filterMap Parameter.symbol?)) m =
        after (declareAll (ys.filterMap Parameter.symbol?)) m' := fun ys => congrArg (·.names) (hm ys)
    rw [hn, hafter]
    exact h.follows

/-- **Renamed parameters.** -/
theorem carries_parameters (houtside : d.Beside k l) (hν : c.plan.naming.functions = d.naming)
    (h : c.Follows n w m) (hscopes : ∀ x, x ∉ before → w.scopes.find? x = none)
    (hxs : ∀ x ∈ xs, k.parameter x = x ∧ k.lengthFindings x.array = [])
    (hfixed : ∀ s ∈ parameterSites k before xs, s.isFixed c.plan.naming = true)
    (hdeclared : (run (declareAll (xs.filterMap Parameter.symbol?)) n).2.findings = [])
    (hbound : w.next + (xs.filterMap (·.name)).length ≤ c.total) :
    c.CarriesParameters xs n m k l w := by
  induction xs generalizing n m w before with
  | nil =>
    have hwalk : ([] : List Parameter).mapM Walking.parameter c.plan w = ([], w) := by
      rw [List.mapM_nil]
      rfl
    refine ⟨?_, ?_, ?_, ?_, ?_⟩ <;> simp only [hwalk]
    · simp
    · rfl
    · rfl
    · exact h
  | cons x xs ih =>
    rw [List.forall_mem_cons] at hxs
    rw [parameterSites] at hfixed
    obtain ⟨hlength, htype⟩ := settled_parameter.mp hxs.1
    have hcarried : ∀ e ∈ lengthExprs x.array, ∀ y ∈ e.nodes, y.Carried c.plan.naming w.scopes k l := by
      intro e he
      refine houtside.carried hν (hlength e he) fun note y hy => ?_
      have hapart := hfixed ⟨.parameter before, k, e⟩ (List.mem_append_left _ (List.mem_map_of_mem he))
      have hnot : y ∉ before := by
        simpa [Expr.isApart] using List.all_eq_true.mp hapart _ hy
      unfold Naming.variable_
      rw [hscopes y hnot]
      rfl
    have hrenamed := carries_length houtside.types hlength hcarried
    have hrest : ∀ s ∈ parameterSites k (before ++ x.name.toList) xs, s.isFixed c.plan.naming = true :=
      fun s hs => hfixed s (List.mem_append_right _ hs)
    have hsettled : ∀ name, l.parameter { x with
          array := x.array.map (·.rename c.plan.naming w.scopes), name } =
            { x with array := x.array.map (·.rename c.plan.naming w.scopes), name } ∧
        l.lengthFindings (x.array.map (·.rename c.plan.naming w.scopes)) = [] := fun name =>
      settled_parameter.mpr ⟨hrenamed.1, (hrenamed.2.1 _ _).trans htype⟩
    cases hname : x.name with
    | none =>
      obtain ⟨seen, hwalk⟩ := Walking.parameter_eq_of_none c.plan w x hname
      have hsymbol : ∀ y : Parameter, y.name = none → y.symbol? = none := fun y hy => by
        rw [Parameter.symbol?, hy]
        rfl
      rw [List.filterMap_cons_none (hsymbol x hname)] at hdeclared
      rw [List.filterMap_cons_none hname] at hbound
      rw [hname, Option.toList_none, List.append_nil] at hrest
      refine .cons hwalk rfl (hsettled x.name) hrenamed.2.2 ?_ (fun ys => ?_)
        (ih (h.notice seen) hscopes hxs.2 hrest hdeclared hbound)
      · rw [List.filterMap_cons_none (hsymbol x hname)]
      · have hnone := hsymbol { x with array := x.array.map (·.rename c.plan.naming w.scopes) } hname
        rw [List.filterMap_cons_none hnone]
    | some name =>
      rw [List.filterMap_cons_some hname, List.length_cons] at hbound
      obtain ⟨new, hnew⟩ := c.exists_name w.next (by omega)
      obtain ⟨seen, hwalk⟩ := Walking.parameter_eq_of_some c.plan w x hname hnew
      have hsymbol : ∀ (y : Parameter) name, y.name = some name →
          y.symbol? = some ⟨name, .parameter, y.ty, .empty, none, y.loc⟩ := fun y name hy => by
        rw [Parameter.symbol?, hy]
        rfl
      rw [List.filterMap_cons_some (hsymbol x name hname), findings_declareAll_cons] at hdeclared
      have haccepts : m.accepts ⟨new, .parameter, x.ty, .empty, none, x.loc⟩ = true :=
        h.accepts (s := ⟨name, .parameter, x.ty, .empty, none, x.loc⟩) hnew
      rw [hname, Option.toList_some] at hrest
      have hscopes' : ∀ y, y ∉ before ++ [name] → (w.scopes.declare name w.next).find? y = none := by
        intro y hy
        rw [List.mem_append, List.mem_singleton, not_or] at hy
        rw [Scopes.find?_eq_lookup, Scopes.entries_declare, List.lookup_cons, beq_eq_false_iff_ne.mpr hy.2,
          ← Scopes.find?_eq_lookup]
        exact hscopes y hy.1
      refine .cons hwalk rfl (hsettled (some new)) hrenamed.2.2 ?_ (fun ys => ?_)
        (ih (h.insert hnew (by omega) seen) hscopes' hxs.2 hrest hdeclared.2 (by
          show w.next + 1 + (xs.filterMap Parameter.name).length ≤ _
          omega))
      · rw [List.filterMap_cons_some (hsymbol x name hname), after_declareAll_of_accepts hdeclared.1]
      · rw [List.filterMap_cons_some (hsymbol _ new rfl), declareAll, run_bind,
          run_declare_of_accepts haccepts]
        rfl

end Setting

namespace Resolve

variable {n : Names}

/-- What a head declares does not depend on the names of its parameters. -/
theorem declareFunction_congr {p q : Prototype} (hname : q.name = p.name)
    (htypes : q.parameterTypes = p.parameterTypes) (hresult : q.result = p.result) (hloc : q.loc = p.loc)
    (defining : Bool) : declareFunction q defining = declareFunction p defining := by
  unfold declareFunction
  rw [hname, htypes, hresult, hloc]

/-- What is known behind a function: the scope of its body is left. -/
theorem after_function (f : Function) :
    after (function f) n = (after (statements f.body) (functionNames n f)).exit := by
  rw [function_eq, functionNames]
  simp only [after, run_bind, run_pure, run_within, behind_names]

end Resolve

namespace Scheme

variable {c : Scheme} {n m : Names} {plan : WalkPlan}

theorem functionSymbol_eq {ν : Naming} (hν : ν.functions = c.naming) :
    ν.functionSymbol = Naming.functionSymbol ⟨[], c.naming⟩ := by
  funext f
  rw [Naming.functionSymbol, Naming.functionSymbol, function_eq_new hν]
  rfl

namespace Beside

/-- What is fixed inside a function. -/
def setting (h : c.Beside n m) (hν : plan.naming.functions = c.naming) {total : Nat}
    (hfits : plan.naming.Fits total c.taken) : Setting where
  plan := plan
  total := total
  outside := n.symbols.outside
  functions := n.functions
  exists_name := hfits.exists_name
  injective := hfits.injective
  notReserved := hfits.notReserved
  notOutside {id name} hid s hs hname := by
    rcases List.mem_append.mp hs with hs | hs
    · exact hfits.notTaken hid (hname ▸ h.taken s hs)
    · have hreserved := h.outermost.reserved s hs
      rw [hname, hfits.notReserved hid] at hreserved
      cases hreserved
  functionsApart f hf g hg hsame := by
    rw [function_eq_new hν, function_eq_new hν] at hsame
    exact c.injective f.name (h.known f hf) g.name (h.known g hg) hsame

/-- At the beginning of a function no symbol is declared in it. -/
theorem follows (h : c.Beside n m) (hν : plan.naming.functions = c.naming) {total : Nat}
    (hfits : plan.naming.Fits total c.taken) :
    (h.setting hν hfits).Follows (n.enter .function) {} (m.enter .function) where
  types := ⟨h.types.version, h.types.structs⟩
  functions := rfl
  renamed := by
    show m.functions = n.functions.map plan.naming.functionSymbol
    rw [h.functions, functionSymbol_eq hν]
  left := n.isGlobal_enter (by decide)
  right := m.isGlobal_enter (by decide)
  outsideLeft := rfl
  outsideRight := by
    show m.symbols.outside = n.symbols.outside
    rw [h.symbols]
  aligned := by
    have hnone : n.symbols.locals = [] := by rw [SymbolTable.locals, h.outermost.frames]; rfl
    show Aligned _ _ (n.symbols.enter .function).locals [] (m.symbols.enter .function).locals
    rw [SymbolTable.locals_enter, SymbolTable.locals_enter, h.symbols, hnone]
    exact .nil _
  bound := Nat.zero_le _

/-- Behind a function the places fit together again. -/
theorem leave (h : c.Beside n m) {n₀ m₀ k l : Names} (houter : c.Beside n₀ m₀)
    (hν : plan.naming.functions = c.naming) {total : Nat}
    (hfits : plan.naming.Fits total c.taken) {w : Walk} (hfollows : (h.setting hν hfits).Follows k w l)
    (hversion : k.version = n.version) (hk : k.exit.symbols = n₀.symbols) (hl : l.exit.symbols = m₀.symbols) :
    c.Beside k.exit l.exit where
  types := ⟨hfollows.types.version, hfollows.types.structs⟩
  version := hversion.trans h.version
  symbols := by rw [hk, hl, houter.symbols]
  functions := by
    have hrenamed : l.functions = k.functions.map plan.naming.functionSymbol := hfollows.renamed
    rw [functionSymbol_eq hν] at hrenamed
    exact hrenamed
  outermost := houter.outermost.of_symbols hk
  known := by
    show ∀ f ∈ k.functions, f.name ∈ c.known
    rw [hfollows.functions]
    exact h.known
  taken := by
    rw [hk]
    exact houter.taken

/-- **A renamed function is settled, and its names refer to the same declarations.** -/
theorem function (h : c.Beside n m) (hν : plan.naming.functions = c.naming) {f : Function}
    (hfits : plan.naming.Fits f.declared.length c.taken) (hf : Settled topLevel n (.function f))
    (hfixed : ∀ s ∈ (TopLevel.function f).sites n, s.isFixed plan.naming = true)
    (hknown : f.prototype.name ∈ c.known) :
    c.Keeps (.function f) (.function (Walking.run (Walking.function f) plan).1) n m := by
  obtain ⟨hhead, hdeclared, hbody⟩ := settled_function.mp (settled_top_function.mp hf)
  obtain ⟨hparameters, hfunction⟩ := settled_prototype.mp hhead
  rw [TopLevel.sites] at hfixed
  rw [after_prototype hhead] at hdeclared
  have hnames : functionNames n f = after (Resolve.declareAll (f.prototype.parameters.filterMap Parameter.symbol?))
      ((after (Resolve.declareFunction f.prototype true) n).enter .function) := by
    rw [functionNames, hhead.value, after_prototype hhead]
  -- the new head, first with the old parameters: what a head declares does not depend on their names
  obtain ⟨p, hp⟩ : ∃ p : Prototype, p = { f.prototype with name := c.new f.prototype.name } := ⟨_, rfl⟩
  obtain ⟨hfindings, hbeside⟩ := h.declareFunction hfunction hknown
    (show p.name = c.new f.prototype.name by rw [hp]) (by rw [hp]; rfl) (by rw [hp]) (by rw [hp])
  have hcount : (f.prototype.parameters.filterMap (·.name)).length + (Stmt.declaredAll f.body).length =
      f.declared.length := List.length_append.symm
  have hstart := hbeside.follows hν hfits
  have hempty : ∀ x, x ∉ ([] : List String) → ({} : Walk).scopes.find? x = none := fun _ _ => rfl
  have hcarried := Setting.carries_parameters h hν hstart hempty hparameters
    (fun s hs => hfixed s (List.mem_append_left _ hs)) hdeclared (by
      show 0 + (f.prototype.parameters.filterMap (·.name)).length ≤ f.declared.length
      omega)
  have hnext : ((f.prototype.parameters.mapM Walking.parameter plan {}).2).next =
      (f.prototype.parameters.filterMap (·.name)).length := by
    rw [(@Walking.numbers_parameters [] f.prototype.parameters).next]
    exact Nat.zero_add _
  obtain ⟨hstmts, hbindings, hfollows⟩ := Setting.carries_stmts
    (fun s _ n w m h hs hsites hbound => Setting.carries_stmt false s h hs hsites hbound) hcarried.follows
    (hnames ▸ hbody) (fun s hs => hfixed s (List.mem_append_right _ (hnames ▸ hs))) (by
      show ((f.prototype.parameters.mapM Walking.parameter plan {}).2).next + _ ≤ f.declared.length
      rw [hnext]
      exact Nat.le_of_eq hcount)
  -- the new head with the new parameters
  obtain ⟨q, hq⟩ : ∃ q : Prototype, q = { f.prototype with
      name := plan.naming.function f.prototype.name
      parameters := (f.prototype.parameters.mapM Walking.parameter plan {}).1 } := ⟨_, rfl⟩
  have hwalk : (Walking.run (Walking.function f) plan).1 = { f with
      prototype := q
      body := (Walking.stmts f.body plan (f.prototype.parameters.mapM Walking.parameter plan {}).2).1 } := by
    rw [hq]
    rfl
  have hsame : Resolve.declareFunction q true = Resolve.declareFunction p true := by
    have htypes : q.parameterTypes = p.parameterTypes := by
      rw [hp, hq]
      exact hcarried.types
    refine declareFunction_congr ?_ htypes ?_ ?_ true
    · rw [hp, hq]
      exact function_eq_new hν _
    · rw [hp, hq]
    · rw [hp, hq]
  have hhead' : Settled (Resolve.prototype · true) m q := by
    refine settled_prototype.mpr ⟨?_, by rw [hsame]; exact hfindings⟩
    rw [hq]
    exact hcarried.settled
  have hafter : after (Resolve.prototype q true) m = after (Resolve.declareFunction p true) m := by
    rw [after_prototype hhead', hsame]
  rw [hwalk]
  have hnames' : ∀ body, functionNames m { f with prototype := q, body } =
      after (Resolve.declareAll ((f.prototype.parameters.mapM Walking.parameter plan {}).1.filterMap
        Parameter.symbol?)) ((after (Resolve.declareFunction p true) m).enter .function) := by
    intro body
    rw [functionNames, hhead'.value, hafter, hq]
  have hdeclared' : (run (Resolve.declareAll (q.parameters.filterMap Parameter.symbol?))
      ((after (Resolve.prototype q true) m).enter .function)).2.findings = [] := by
    rw [hafter, hq]
    exact hcarried.declared
  refine ⟨settled_top_function.mpr (settled_function.mpr ⟨hhead', hdeclared', ?_⟩), ?_, ?_⟩
  · rw [hnames']
    exact hstmts
  · rw [TopLevel.sites, TopLevel.sites, siteBindings_append, siteBindings_append, hnames, hnames',
      siteBindings_parameterSites, siteBindings_parameterSites, ← hcarried.bindings]
    exact congrArg₂ (· ++ ·) (by rw [hq]; rfl) hbindings
  · have htop : ∀ f k, after (topLevel (.function f)) k = after (Resolve.function f) k := fun _ _ => rfl
    rw [htop, htop]
    have hsymbols := symbols_after_function (n := n) f
    have hsymbols' := symbols_after_function (n := m) { f with
      prototype := q
      body := (Walking.stmts f.body plan (f.prototype.parameters.mapM Walking.parameter plan {}).2).1 }
    rw [after_function, hnames] at hsymbols ⊢
    rw [after_function, hnames'] at hsymbols' ⊢
    have hversion := (extends_of_local (statements f.body) hcarried.follows.left).version.trans
      (extends_of_local (Resolve.declareAll (f.prototype.parameters.filterMap Parameter.symbol?)) hstart.left).version
    exact hbeside.leave h hν hfits hfollows hversion hsymbols hsymbols'

end Beside

end Scheme

end GlslEs
