import GlslEs.Proofs.Check.Constants
import Mathlib.Data.List.Forall2

/-!
# Checking and resolving side by side

Checking, resolving and the loops around expressions are followed through a shader at once.  Wherever an
expression stands, checking knows the same constants as resolving, and both know the counters of the loops.

* `Consistent`: what holds at one place.
* `Stop`, `Walked`: the expressions that are passed, with what is known at each of them.
* `Resolve.walked_statement`: **the walk through a statement**.
* `Shader.walked_resolve`: the walk through a shader.
* `Shader.forall₂_constant?_eq`: resolving and checking know the same constants.
-/

namespace GlslEs

/-- Checking and resolving know the same constants at a place, and both know the counters of the loops
around it; checking knows the tables of `c₀`. -/
structure Consistent (c₀ c : Context) (ks : List Counter) (n : Names) : Prop where
  constants : Names.SameConstants c n
  counts : c.Counts c₀ ks
  tracks : n.Tracks ks

namespace Consistent

variable {c₀ c : Context} {ks : List Counter} {n m : Names}

theorem of_symbols (h : Consistent c₀ c ks n) (hsymbols : m.symbols = n.symbols) : Consistent c₀ c ks m :=
  ⟨h.constants.of_symbols hsymbols, h.counts, h.tracks.of_symbols (congrArg _ hsymbols)⟩

theorem enter_left (h : Consistent c₀ c ks n) : Consistent c₀ c.enter ks n :=
  ⟨h.constants.enter_left, h.counts.enter, h.tracks⟩

theorem enter_right (h : Consistent c₀ c ks n) (kind : ScopeKind) : Consistent c₀ c ks (n.enter kind) :=
  ⟨h.constants.enter_right kind, h.counts, h.tracks.enter kind⟩

theorem enter (h : Consistent c₀ c ks n) (kind : ScopeKind) : Consistent c₀ c.enter ks (n.enter kind) :=
  h.enter_left.enter_right kind

theorem inBody (h : Consistent c₀ c ks n) (body : Stmt) : Consistent c₀ c ks (n.inBody body) := by
  unfold Names.inBody
  split
  · exact h
  · exact h.enter_right .block

/-- A name that is declared with the same value. -/
theorem declare (h : Consistent c₀ c ks n) {s : Symbol} (hs : n.accepts s = true) :
    Consistent c₀ (c.declare s.name s.value) (ks.map (·.behind s.name)) (n.insert s) :=
  ⟨h.constants.declare hs, h.counts.behind s.name s.value, h.tracks.insert s⟩

/-- The value of a variable is the same for both. -/
theorem declarator (h : Consistent c₀ c ks n) {q : TypeQualifiers} {x : Declarator}
    (hx : n.accepts (n.symbolOf q x) = true) :
    Consistent c₀ (c.afterDeclarator q x) (ks.map (·.behind x.name)) (n.insert (n.symbolOf q x)) := by
  have hvalue : (n.symbolOf q x).value =
      if q.storage = some .const then x.value.bind c.eval? else none := by
    unfold Names.symbolOf Context.eval?
    rw [h.constants.constant?]
  have hknown := h.declare hx
  rw [hvalue] at hknown
  exact hknown

/-- In the body of a loop that counts, the variable of its head is the innermost counter. -/
theorem inLoop {start : LoopStart} (h : Consistent c₀ c (Counter.afterAll ks start.declarators) n)
    (counter : Except InductionProblem String)
    (hcounter : ∀ name, counter = .ok name → start.counter = .ok name)
    (hnewest : ∀ x, start.declarators = [x] → n.Newest x) :
    Consistent c₀ (c.inLoop counter) (start.counters counter ks) n := by
  cases counter with
  | error problem => exact h
  | ok name =>
    obtain ⟨x, hx, rfl⟩ := LoopStart.of_counter (hcounter name rfl)
    have hcounters : start.counters (.ok x.name) ks = ⟨x, []⟩ :: ks.map (·.behind x.name) := by
      simp [LoopStart.counters, hx, Counter.afterAll, Except.isOk, Except.toBool]
    rw [hx] at h
    rw [hcounters]
    refine ⟨⟨h.constants.constant?, h.constants.reserved⟩, ⟨h.counts.functions, h.counts.structs, ?_⟩,
      h.tracks.push (hnewest x hx)⟩
    rw [List.map_cons]
    exact congrArg (x.name :: ·) h.counts.counters

end Consistent

/-! ### Stops -/

/-- Whether an expression stands in a statement or as the value of a variable. -/
def Site.isPlain (s : Site) : Bool := s.kind == .plain

/-- An expression that is passed, with what is known where it stands. -/
structure Stop where
  context : Context
  counters : List Counter
  names : Names
  expr : Expr

namespace Stop

def checkSite (x : Stop) : CheckSite := ⟨x.context, x.expr.resolve x.names⟩

def site (x : Stop) : Site := ⟨.plain, x.names, x.expr⟩

def loopSite (x : Stop) : LoopSite := ⟨x.counters, x.expr.resolve x.names⟩

end Stop

/-- The sites of the check, the plain ones of resolving and those in loops are the same stops one by one. -/
structure Stops (c₀ : Context) (stops : List Stop) (as : List CheckSite) (bs : List Site)
    (ls : List LoopSite) : Prop where
  check : as = stops.map Stop.checkSite
  resolve : bs.filter Site.isPlain = stops.map Stop.site
  loops : ls = stops.map Stop.loopSite
  consistent : ∀ x ∈ stops, Consistent c₀ x.context x.counters x.names

/-- The sites have stops in common. -/
def Walked (c₀ : Context) (as : List CheckSite) (bs : List Site) (ls : List LoopSite) : Prop :=
  ∃ stops, Stops c₀ stops as bs ls

namespace Walked

variable {c₀ c : Context} {ks : List Counter} {n : Names} {as as' : List CheckSite} {bs bs' : List Site}
  {ls ls' : List LoopSite}

theorem nil (h : bs.filter Site.isPlain = []) : Walked c₀ [] bs [] := ⟨[], rfl, h, rfl, by simp⟩

theorem append (h : Walked c₀ as bs ls) (h' : Walked c₀ as' bs' ls') :
    Walked c₀ (as ++ as') (bs ++ bs') (ls ++ ls') := by
  obtain ⟨xs, h⟩ := h
  obtain ⟨ys, h'⟩ := h'
  refine ⟨xs ++ ys, ?_, ?_, ?_, List.forall_mem_append.mpr ⟨h.consistent, h'.consistent⟩⟩
  · rw [h.check, h'.check, List.map_append]
  · rw [List.filter_append, h.resolve, h'.resolve, List.map_append]
  · rw [h.loops, h'.loops, List.map_append]

theorem of_filter (h : Walked c₀ as bs ls) (hbs : bs'.filter Site.isPlain = bs.filter Site.isPlain) :
    Walked c₀ as bs' ls := by
  obtain ⟨xs, h⟩ := h
  exact ⟨xs, h.check, hbs.trans h.resolve, h.loops, h.consistent⟩

theorem cons (h : Consistent c₀ c ks n) (e : Expr) (hrest : Walked c₀ as bs ls) :
    Walked c₀ (⟨c, e.resolve n⟩ :: as) (⟨.plain, n, e⟩ :: bs) (⟨ks, e.resolve n⟩ :: ls) := by
  have hone : Walked c₀ [⟨c, e.resolve n⟩] [⟨.plain, n, e⟩] [⟨ks, e.resolve n⟩] :=
    ⟨[⟨c, ks, n, e⟩], rfl, rfl, rfl, by simpa using h⟩
  exact hone.append hrest

theorem option (h : Consistent c₀ c ks n) (e : Option Expr) :
    Walked c₀ (c.optionSites (e.map (·.resolve n))) (e.toList.map (⟨.plain, n, ·⟩))
      ((e.map (·.resolve n)).toList.map (⟨ks, ·⟩)) := by
  cases e with
  | none => exact nil rfl
  | some e => exact cons h e (nil rfl)

end Walked

namespace Resolve

variable {c₀ c : Context} {ks : List Counter} {n : Names} {q : TypeQualifiers}

/-! ### Sites without values -/

theorem filter_length {kind : SiteKind} (hkind : kind ≠ .plain) (n : Names) (es : List Expr) :
    (es.map fun e => (⟨kind, n, e⟩ : Site)).filter Site.isPlain = [] :=
  List.filter_eq_nil_iff.mpr fun s hs => by
    obtain ⟨e, -, rfl⟩ := List.mem_map.mp hs
    simpa [Site.isPlain] using hkind

theorem filter_memberSites (n : Names) (ms : List Member) :
    (memberSites n ms).filter Site.isPlain = [] := by
  rw [memberSites, List.filter_flatMap]
  exact List.flatMap_eq_nil_iff.mpr fun m _ => filter_length (by simp) n _

theorem filter_parameterSites (n : Names) (before : List String) (xs : List Parameter) :
    (parameterSites n before xs).filter Site.isPlain = [] := by
  induction xs generalizing before with
  | nil => rfl
  | cons x xs ih => rw [parameterSites, List.filter_append, ih, filter_length (by simp), List.append_nil]

/-- In a declaration only the values of variables are plain. -/
theorem filter_declaration (n : Names) (d : Declaration) :
    (d.sites n).filter Site.isPlain = (declaratorSites d.qualifiers d.ty
      (after (d.struct.mapM structDef) n) d.declarators).filter Site.isPlain := by
  rw [Declaration.sites, List.filter_append, List.filter_flatMap, List.flatMap_eq_nil_iff.mpr, List.nil_append]
  exact fun x _ => filter_memberSites n x.members

/-- Structures, blocks and heads of functions have no values. -/
theorem filter_topLevel (n : Names) {d : TopLevel} (hglobals : ∀ x, d ≠ .globals x)
    (hfunction : ∀ f, d ≠ .function f) : (d.sites n).filter Site.isPlain = [] := by
  cases d with
  | precision p ty loc | layout q loc => rfl
  | globals d => exact absurd rfl (hglobals d)
  | struct d => exact filter_memberSites n d.members
  | block b =>
    rw [TopLevel.sites, List.filter_append, filter_memberSites, filter_length (by simp), List.append_nil]
  | prototype p =>
    rw [TopLevel.sites, List.filter_flatMap]
    exact List.flatMap_eq_nil_iff.mpr fun x _ => filter_length (by simp) n _
  | function f => exact absurd rfl (hfunction f)

/-! ### Declarations -/

theorem after_declarator_of_distinct {ty : Ty} {d : Declarator} (hd : Distinct (declarator q ty d) n) :
    n.accepts (n.symbolOf q (n.declarator ty d)) = true ∧
      after (declarator q ty d) n = n.insert (n.symbolOf q (n.declarator ty d)) := by
  unfold Distinct at hd
  rw [run_declarator] at hd
  have hsymbol : Distinct (declare (n.symbolOf q (n.declarator ty d))) n :=
    fun f hf => hd f (List.mem_append_right _ hf)
  refine ⟨accepts_of_distinct hsymbol, ?_⟩
  rw [after, run_declarator]
  exact after_declare_of_distinct hsymbol

/-- What holds behind variables: the last one of them is the newest one. -/
theorem walked_declarators (h : Consistent c₀ c ks n) {ty : Ty} {ds : List Declarator}
    (hds : Distinct (ds.mapM (declarator q ty)) n) :
    let xs := (run (ds.mapM (declarator q ty)) n).1
    Walked c₀ (c.declaratorSites q xs) (declaratorSites q ty n ds) (declaratorLoopSites ks xs) ∧
      Consistent c₀ (xs.foldl (·.afterDeclarator q ·) c) (Counter.afterAll ks xs)
        (after (ds.mapM (declarator q ty)) n) ∧
      ∀ x, xs = [x] → (after (ds.mapM (declarator q ty)) n).Newest x := by
  induction ds generalizing c ks n with
  | nil =>
    rw [after, run_mapM_nil]
    exact ⟨.nil rfl, h, by simp⟩
  | cons d ds ih =>
    obtain ⟨hd, hrest⟩ := distinct_mapM_cons hds
    obtain ⟨haccepts, hafter⟩ := after_declarator_of_distinct hd
    have hrun : (run (declarator q ty d) n).1 = n.declarator ty d := by rw [run_declarator, behind_fst]
    have hnext := h.declarator haccepts
    rw [← hafter] at hnext
    obtain ⟨hsites, hlast, -⟩ := ih hnext hrest
    have hown : Walked c₀ (c.optionSites (n.declarator ty d).value) (d.sites n)
        ((n.declarator ty d).value.toList.map (⟨ks, ·⟩)) := by
      refine (Walked.option h d.value).of_filter ?_
      rw [Declarator.sites, List.filter_append,
        filter_length (show SiteKind.length ≠ .plain by simp), List.append_nil]
    rw [after_mapM_cons, run_mapM_cons, hrun]
    refine ⟨hown.append hsites, hlast, fun x hx => ?_⟩
    obtain ⟨rfl, hnil⟩ := List.cons.inj hx
    cases ds with
    | nil =>
      rw [after_mapM_nil, hafter]
      exact ⟨_, _, Names.Tracks.symbols_insert _ _, rfl, rfl⟩
    | cons d' ds =>
      rw [run_mapM_cons] at hnil
      cases hnil

theorem run_declaration (d : Declaration) : (run (declaration d) n).1 = { d with
    struct := (run (d.struct.mapM structDef) n).1
    declarators := (run (d.declarators.mapM (declarator d.qualifiers d.ty))
      (after (d.struct.mapM structDef) n)).1 } := by
  simp only [declaration, run_bind, run_pure, behind_fst, after]

theorem walked_declaration (h : Consistent c₀ c ks n) {d : Declaration} (hd : Distinct (declaration d) n) :
    let x := (run (declaration d) n).1
    Walked c₀ (c.declarationSites x) (d.sites n) (declaratorLoopSites ks x.declarators) ∧
      Consistent c₀ (c.afterDeclaration x) (Counter.afterAll ks x.declarators) (after (declaration d) n) ∧
      ∀ y, x.declarators = [y] → (after (declaration d) n).Newest y := by
  obtain ⟨-, hdeclarators⟩ := distinct_bind hd
  obtain ⟨hdeclarators, -⟩ := distinct_bind hdeclarators
  obtain ⟨hsites, hlast⟩ :=
    walked_declarators (h.of_symbols (symbols_after_structDef (n := n) d.struct)) hdeclarators
  rw [run_declaration, after_declaration]
  exact ⟨hsites.of_filter (filter_declaration n d), hlast⟩

/-! ### Statements -/

theorem walked_loopStart (h : Consistent c₀ c ks n) {start : LoopStart} (hstart : Distinct (loopStart start) n) :
    let x := (run (loopStart start) n).1
    Walked c₀ (c.startSites x) (start.sites n) (x.loopSites ks) ∧
      Consistent c₀ (c.afterStart x) (Counter.afterAll ks x.declarators) (after (loopStart start) n) ∧
      ∀ y, x.declarators = [y] → (after (loopStart start) n).Newest y := by
  cases start with
  | absent | empty loc => exact ⟨.nil rfl, h, fun y hy => by cases hy⟩
  | expr loc e => exact ⟨.cons h e (.nil rfl), h, fun y hy => by cases hy⟩
  | decl loc d =>
    obtain ⟨hd, -⟩ := distinct_bind hstart
    exact walked_declaration h hd

theorem consistent_after (h : Consistent c₀ c ks n) {s : Stmt} (hs : Distinct (statement false s) n) :
    Consistent c₀ (c.after (run (statement false s) n).1) ((run (statement false s) n).1.countersAfter ks)
      (after (statement false s) n) := by
  cases s with
  | decl loc d =>
    obtain ⟨hd, -⟩ := distinct_bind hs
    exact (walked_declaration h hd).2.1
  | _ => exact h.of_symbols (symbols_after_statement (by simp) (.inl rfl))

/-- What is to be shown of one statement.  Checking opens a scope for the braces around the body of a `while`
loop and resolving does not, so the two sides are told separately whether braces open one. -/
def WalksStmt (c₀ : Context) (s : Stmt) : Prop :=
  ∀ (inner inner' : Bool) (c : Context) (ks : List Counter) (n : Names), Consistent c₀ c ks n →
    Distinct (statement inner' s) n →
    Walked c₀ (c.stmtSites inner (run (statement inner' s) n).1) (s.sites inner' n)
      ((run (statement inner' s) n).1.loopSites c₀.functions ks)

theorem walked_statements {ss : List Stmt} (hss : ∀ s ∈ ss, WalksStmt c₀ s) (h : Consistent c₀ c ks n)
    (hdistinct : Distinct (statements ss) n) :
    Walked c₀ (c.stmtsSites (run (statements ss) n).1) (Stmt.sitesAll n ss)
      (Stmt.loopSitesAll c₀.functions ks (run (statements ss) n).1) := by
  induction ss generalizing c ks n with
  | nil => exact .nil rfl
  | cons s ss ih =>
    obtain ⟨hs, hrest⟩ := distinct_statements_cons hdistinct
    rw [run_statements_cons]
    exact (hss s List.mem_cons_self false false c ks n h hs).append
      (ih (fun t ht => hss t (List.mem_cons_of_mem s ht)) (consistent_after h hs) hrest)

theorem distinct_loopBody {body : Stmt} (h : Distinct (loopBody body (statement true body)) n) :
    Distinct (statement true body) (n.inBody body) := by
  unfold loopBody at h
  unfold Names.inBody
  split at h
  · rename_i hblock
    rwa [if_pos hblock]
  · rename_i hblock
    rwa [if_neg hblock]

/-- **The walk through a statement.** -/
theorem walked_statement (s : Stmt) : WalksStmt c₀ s := by
  intro inner inner' c ks n h hs
  induction s generalizing inner inner' c ks n with
  | expr loc e => exact .cons h e (.nil rfl)
  | decl loc d =>
    obtain ⟨hd, -⟩ := distinct_bind hs
    exact (walked_declaration h hd).1
  | block loc body ih =>
    have hleft : ∀ m, Consistent c₀ c ks m → Consistent c₀ (if inner then c else c.enter) ks m := by
      intro m hm
      split
      · exact hm
      · exact hm.enter_left
    cases inner' with
    | true => exact walked_statements ih (hleft _ h) hs
    | false => exact walked_statements ih (hleft _ (h.enter_right .block)) hs
  | ifThen loc condition thenBranch ih =>
    obtain ⟨-, hthen⟩ := distinct_bind hs
    rw [run_ifThen]
    exact .cons h condition (ih true true _ _ _ (h.enter .block) hthen)
  | ifElse loc condition thenBranch elseBranch iht ihe =>
    obtain ⟨-, hbranches⟩ := distinct_bind hs
    obtain ⟨hthen, helse⟩ := distinct_bind hbranches
    have hsymbols : (after (within .block (statement true thenBranch)) n).symbols = n.symbols :=
      symbols_within .block (by decide) (statement true thenBranch)
    have hbetween := (h.of_symbols hsymbols).enter .block
    rw [run_ifElse]
    exact .cons h condition ((iht true true _ _ _ (h.enter .block) hthen).append
      (ihe true true _ _ _ hbetween helse))
  | forLoop loc start condition step body ih =>
    rw [statement] at hs
    obtain ⟨hstart, hrest⟩ := distinct_bind (distinct_within hs)
    obtain ⟨-, hrest⟩ := distinct_bind hrest
    obtain ⟨-, hbody⟩ := distinct_bind hrest
    simp only [after_option] at hbody
    obtain ⟨hsites, hhead, hnewest⟩ := walked_loopStart (h.enter .loop) hstart
    have hcounting := fun counter hcounter => hhead.inLoop counter hcounter hnewest
    rw [run_forLoop]
    simp only [Context.stmtSites, Stmt.sites, Stmt.loopSites, List.map_append, List.append_assoc,
      h.counts.functions]
    exact hsites.append ((Walked.option hhead condition).append ((Walked.option hhead step).append
      (ih true true _ _ _ ((hcounting _ fun name hname => (of_loopCounter hname).1).inBody body)
        (distinct_loopBody hbody))))
  | whileLoop loc condition body ih | doWhile loc body condition ih =>
    rw [statement] at hs
    obtain ⟨-, hbody⟩ := distinct_bind (distinct_within hs)
    simp only [run_whileLoop, run_doWhile]
    exact .cons (h.enter .loop) condition (ih false true _ _ _ ((h.enter .loop).inBody body)
      (distinct_loopBody hbody))
  | switch loc selector bodyLoc body ih =>
    obtain ⟨-, hrest⟩ := distinct_bind hs
    obtain ⟨hbody, -⟩ := distinct_bind hrest
    rw [run_switch]
    exact .cons h selector (walked_statements ih (h.enter .block) hbody)
  | label loc value | result loc value =>
    simp only [statement, run_bind, run_pure, behind_fst, run_option]
    exact .option h value
  | jump loc kind | empty loc => exact .nil rfl

/-! ### Declarations at the top -/

/-- A function: its parameters and its body are declared in a scope of their own. -/
theorem walked_function (h : Consistent c₀ c [] n) {f : Function} (hf : Distinct (function f) n) :
    let x := (run (function f) n).1
    Walked c₀ (c.topLevelSites (.function x)) (TopLevel.sites n (.function f))
      (TopLevel.loopSites c₀.functions (.function x)) := by
  unfold Distinct at hf
  rw [function_eq] at hf ⊢
  obtain ⟨-, hbody⟩ := distinct_bind hf
  obtain ⟨hparameters, hbody⟩ := distinct_bind (distinct_within hbody)
  obtain ⟨hbody, -⟩ := distinct_bind hbody
  have hinside : Consistent c₀ (c.inside (run (prototype f.prototype true) n).1) [] (functionNames n f) := by
    have hhead := (h.of_symbols (symbols_after_prototype f.prototype true)).enter .function
    let c' := { c.enter with result := (run (prototype f.prototype true) n).1.result }
    have hcounts : c'.Counts c₀ [] := ⟨hhead.counts.functions, hhead.counts.structs, hhead.counts.counters⟩
    have hconstants : Names.SameConstants c' _ := ⟨hhead.constants.constant?, hhead.constants.reserved⟩
    exact ⟨sameConstants_parameters hconstants hparameters, hcounts.parameters _, .nil _⟩
  simp only [run_bind, run_pure, run_within, behind_fst]
  refine (walked_statements (fun s _ => walked_statement s) hinside hbody).of_filter ?_
  rw [TopLevel.sites, List.filter_append, filter_parameterSites, List.nil_append]

/-- One declaration at the top of a shader. -/
theorem walked_topLevel (ho : n.Outermost) (h : Consistent c₀ c [] n) {d : TopLevel} (hd : Distinct (topLevel d) n) :
    let x := (run (topLevel d) n).1
    Walked c₀ (c.topLevelSites x) (d.sites n) (x.loopSites c₀.functions) ∧
      Consistent c₀ (c.afterTopLevel x) [] (after (topLevel d) n) ∧ (after (topLevel d) n).Outermost := by
  have hsame {m : Names} (hsymbols : m.symbols = n.symbols) : Consistent c₀ c [] m ∧ m.Outermost :=
    ⟨h.of_symbols hsymbols, ho.of_symbols hsymbols⟩
  cases d with
  | precision p ty loc =>
    refine ⟨.nil rfl, ?_, ho⟩
    simp only [topLevel, run_pure, Context.afterTopLevel, after]
    split
    · exact ⟨⟨h.constants.constant?, h.constants.reserved⟩,
        ⟨h.counts.functions, h.counts.structs, h.counts.counters⟩, h.tracks⟩
    · exact h
  | layout q loc => exact ⟨.nil rfl, h, ho⟩
  | globals d =>
    obtain ⟨hd, -⟩ := distinct_bind hd
    obtain ⟨hsites, hlast, -⟩ := walked_declaration h hd
    have hnone : Counter.afterAll [] (run (declaration d) n).1.declarators = [] :=
      List.foldl_fixed' (fun _ => rfl) _
    rw [hnone] at hlast
    exact ⟨hsites, hlast, outermost_declaration ho d⟩
  | struct d =>
    exact ⟨.nil (filter_topLevel n (by simp) (by simp)), hsame (symbols_after_structDef (some d))⟩
  | block b =>
    obtain ⟨hb, -⟩ := distinct_bind hd
    obtain ⟨hconstants, houter⟩ := sameConstants_interfaceBlock ho h.constants hb
    exact ⟨.nil (filter_topLevel n (by simp) (by simp)), ⟨hconstants, h.counts, .nil _⟩, houter⟩
  | prototype p =>
    exact ⟨.nil (filter_topLevel n (by simp) (by simp)), hsame (symbols_after_prototype p false)⟩
  | function f =>
    obtain ⟨hf, -⟩ := distinct_bind hd
    exact ⟨walked_function h hf, hsame (symbols_after_function f)⟩

theorem walked_topLevels (ho : n.Outermost) (h : Consistent c₀ c [] n) {ds : List TopLevel}
    (hds : Distinct (ds.mapM topLevel) n) :
    let xs := (run (ds.mapM topLevel) n).1
    Walked c₀ (c.topLevelsSites xs) (TopLevel.sitesAll n ds) (xs.flatMap (TopLevel.loopSites c₀.functions)) := by
  induction ds generalizing c n with
  | nil =>
    rw [run_mapM_nil]
    exact .nil rfl
  | cons d ds ih =>
    obtain ⟨hd, hrest⟩ := distinct_mapM_cons hds
    obtain ⟨hsites, hlast, houter⟩ := walked_topLevel ho h hd
    rw [run_mapM_cons]
    exact hsites.append (ih houter hlast hrest)

end Resolve

namespace Shader

variable {s : Shader} {stage : Stage} {limits : Limits}

/-- **The walk through a shader** in which no name is declared twice. -/
theorem walked_resolve (stage : Stage) (h : ∀ d ∈ (s.resolve limits).2, d.code ≠ .redefinition) :
    Walked (.ofShader (s.resolve limits).1 stage limits) ((s.resolve limits).1.checkSites stage limits)
      (s.sites limits) (s.resolve limits).1.loopSites := by
  have hdistinct : Resolve.Distinct (s.declarations.mapM Resolve.topLevel) (.ofBuiltins s.version limits) :=
    fun f hf => h f.report (Diagnostic.mem_sort.mpr (List.mem_map_of_mem hf))
  exact Resolve.walked_topLevels (Names.outermost_ofBuiltins s.version limits)
    ⟨Names.sameConstants_ofBuiltins (s.resolve limits).1 stage limits, ⟨rfl, rfl, rfl⟩, .nil _⟩ hdistinct

theorem walked_of_resolve (stage : Stage) (h : s.resolve limits = (s, [])) :
    Walked (.ofShader s stage limits) (s.checkSites stage limits) (s.sites limits) s.loopSites := by
  have hdistinct : ∀ d ∈ (s.resolve limits).2, d.code ≠ .redefinition := by simp [h]
  have hwalked := walked_resolve stage hdistinct
  rwa [h] at hwalked

/-- The sites are those of all expressions in statements and in the values of variables. -/
theorem map_expr_checkSites {bs : List Site}
    (h : Walked (.ofShader s stage limits) (s.checkSites stage limits) bs s.loopSites) :
    (s.checkSites stage limits).map (·.expr) = s.declarations.flatMap TopLevel.exprs := by
  have hloops : s.loopSites.map (·.expr) = s.declarations.flatMap TopLevel.exprs := by
    rw [loopSites, List.map_flatMap]
    exact List.flatMap_congr fun d _ => d.map_expr_loopSites s.prototypes
  obtain ⟨stops, h⟩ := h
  rw [← hloops, h.check, h.loops, List.map_map, List.map_map]
  rfl

/-- **Resolving and checking know the same constants.**  As long as no name is declared twice, the
expressions that are checked as a whole in the resolved shader are those of all statements and values of
variables.  One by one they are the ones that are resolved there, and every name has the same value for
the check as it had when the expression was resolved. -/
theorem forall₂_constant?_eq (s : Shader) (stage : Stage) (limits : Limits)
    (h : ∀ d ∈ (s.resolve limits).2, d.code ≠ .redefinition) :
    (∀ a ∈ (s.resolve limits).1.checkSites stage limits,
      a.context.checkWhole a.expr ⊆ (s.resolve limits).1.findings stage limits) ∧
    ((s.resolve limits).1.checkSites stage limits).map (·.expr) =
      (s.resolve limits).1.declarations.flatMap TopLevel.exprs ∧
    List.Forall₂ (fun (a : CheckSite) (b : Site) => a.expr = b.expr.resolve b.names ∧
        ∀ name, a.context.constant? name = b.names.symbols.constant? name)
      ((s.resolve limits).1.checkSites stage limits) ((s.sites limits).filter (·.kind == .plain)) := by
  have hwalked := walked_resolve stage h
  refine ⟨fun a ha => findings_of_mem_checkSites ha, map_expr_checkSites hwalked, ?_⟩
  obtain ⟨stops, hstops⟩ := hwalked
  rw [hstops.check, show (s.sites limits).filter (·.kind == .plain) = _ from hstops.resolve,
    List.forall₂_map_left_iff, List.forall₂_map_right_iff]
  exact List.forall₂_same.mpr fun x hx => ⟨rfl, congrFun (hstops.consistent x hx).constants.constant?⟩

/-- A constant that is hidden by a parameter, by the counter of a loop and by another constant in it. -/
theorem exists_forall₂_constant?_eq :
    ∃ s : Shader, (∀ d ∈ (s.resolve .standard).2, d.code ≠ .redefinition) ∧
      ((s.resolve .standard).1.checkSites .fragment .standard).map (·.context.constant? "n") =
        [none, none, some [.int 3], none, none, none, some [.int 5], some [.int 3]] ∧
      (((s.resolve .standard).1.checkSites .fragment .standard).map (·.expr) =
        (s.resolve .standard).1.declarations.flatMap TopLevel.exprs ∧
      List.Forall₂ (fun (a : CheckSite) (b : Site) => a.expr = b.expr.resolve b.names ∧
          ∀ name, a.context.constant? name = b.names.symbols.constant? name)
        ((s.resolve .standard).1.checkSites .fragment .standard)
        ((s.sites .standard).filter (·.kind == .plain))) := by
  obtain ⟨s, hparse, hvalues⟩ := exists_parse
    ("const int n=3;int f(int n)\x7breturn n;\x7d" ++
      "void main()\x7bfor(int n=0;n<2;n++)\x7b\x7bconst int n=5;f(n);\x7d\x7df(n);\x7d")
    .standard
    (P := fun s => ((s.resolve .standard).1.checkSites .fragment .standard).map
      (·.context.constant? "n") ==
        [none, none, some [.int 3], none, none, none, some [.int 5], some [.int 3]])
    (by decide +kernel)
  have hdistinct : ∀ d ∈ (s.resolve .standard).2, d.code ≠ .redefinition := by
    rw [resolve_of_parse hparse]
    exact fun d hd => absurd hd List.not_mem_nil
  exact ⟨s, hdistinct, eq_of_beq hvalues, (s.forall₂_constant?_eq .fragment .standard hdistinct).2⟩

/-! ### Shaders without errors -/

namespace Accepted

variable {source : String}

theorem resolve_eq (h : s.Accepted source stage limits) : s.resolve limits = (s, []) := by
  obtain ⟨ds, hparse, hds⟩ := h.parsed
  have hresolve := resolve_of_parse hparse
  obtain ⟨n, hrun⟩ := run_of_resolve hresolve hds
  have hfindings : (s.resolution limits).2.findings = [] := congrArg (·.2.findings) hrun
  exact Prod.ext (by rw [hresolve]) ((s.resolve_eq_nil_iff limits).mpr hfindings)

/-- Every expression of a shader without errors has been resolved, and is checked silently where all functions
are known. -/
theorem exists_stop (h : s.Accepted source stage limits) {d : TopLevel} (hd : d ∈ s.declarations) {e : Expr}
    (he : e ∈ d.exprs) : ∃ x : Stop, x.expr.resolve x.names = e ∧
      Consistent (.ofShader s stage limits) x.context x.counters x.names ∧ Silent (x.context.checkExpr e) := by
  have hwalked := walked_of_resolve stage h.resolve_eq
  have hmem : e ∈ (s.checkSites stage limits).map (·.expr) := by
    rw [map_expr_checkSites hwalked]
    exact List.mem_flatMap.mpr ⟨d, hd, he⟩
  obtain ⟨a, ha, rfl⟩ := List.mem_map.mp hmem
  obtain ⟨stops, hstops⟩ := hwalked
  have hstop := ha
  rw [hstops.check] at hstop
  obtain ⟨x, hx, rfl⟩ := List.mem_map.mp hstop
  exact ⟨x, rfl, hstops.consistent x hx, fun f hf =>
    Silent.of_check h.checked f (findings_of_mem_checkSites ha (List.mem_append_left _ hf))⟩

end Accepted

end Shader

end GlslEs
