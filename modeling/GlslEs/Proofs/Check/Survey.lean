import GlslEs.Proofs.Check.Walk
import GlslEs.Proofs.Writing.Read

/-!
# What is known in an accepted shader

A shader that is resolved without findings and checked without errors is walked through once.  Where an
expression stands, the symbols that are known have types, but for arrays of interface blocks.

* `Names.Known`: the symbols have types, and the functions are given.
* `Surveyed`: expressions that are settled where this is so.
* `Resolve.surveyed_statement`, `Resolve.surveyed_topLevel`: **the walk**.
-/

namespace GlslEs

/-- The name of an array of interface blocks. -/
def TopLevel.blockArray? : TopLevel → Option String
  | .block b => if b.array.isSome then b.instanceName else none
  | _ => none

/-! ### What is known -/

/-- Only symbols with the given names may lack a type, and the functions are given. -/
structure Names.Known (unsized : List String) (fs : List FunctionSymbol) (n : Names) : Prop where
  symbols : ∀ x ∈ n.symbols.symbols, x.Sized unsized
  functions : n.functions = fs

/-- The same inside a function. -/
structure Names.Inside (unsized : List String) (fs : List FunctionSymbol) (n : Names) : Prop extends
    n.Known unsized fs where
  isLocal : n.symbols.isGlobal = false

section

variable {unsized : List String} {fs : List FunctionSymbol} {n m : Names}

namespace Names.Known

theorem of_eq (h : n.Known unsized fs) (hsymbols : m.symbols = n.symbols) (hfunctions : m.functions = n.functions) :
    m.Known unsized fs := by
  refine ⟨?_, hfunctions.trans h.functions⟩
  rw [hsymbols]
  exact h.symbols

theorem enter (h : n.Known unsized fs) {kind : ScopeKind} (hkind : kind ≠ .global) : (n.enter kind).Inside unsized fs :=
  ⟨⟨h.symbols, h.functions⟩, n.isGlobal_enter hkind⟩

theorem insert (h : n.Known unsized fs) {x : Symbol} (hx : x.Sized unsized) : (n.insert x).Known unsized fs := by
  refine ⟨fun y hy => ?_, h.functions⟩
  rcases SymbolTable.mem_symbols_of_mem_insert hy with rfl | hy
  · exact hx
  · exact h.symbols y hy

theorem declareAll (h : n.Known unsized fs) {xs : List Symbol} (hxs : ∀ x ∈ xs, x.Sized unsized) :
    (Resolve.after (Resolve.declareAll xs) n).Known unsized fs := by
  induction xs generalizing n with
  | nil => exact h
  | cons x xs ih =>
    rw [Resolve.after_declareAll_cons]
    refine ih ?_ fun y hy => hxs y (List.mem_cons_of_mem x hy)
    rcases Resolve.run_declare x n with ⟨-, hrun⟩ | ⟨-, _, -, hrun⟩ <;> rw [Resolve.after, hrun]
    · exact h.insert (hxs x List.mem_cons_self)
    · exact h

end Names.Known

namespace Names.Inside

theorem inBody (h : n.Inside unsized fs) (body : Stmt) : (n.inBody body).Inside unsized fs := by
  unfold Names.inBody
  split
  · exact h
  · exact h.enter (by decide)

/-- A step that leaves no symbols behind. -/
theorem after (h : n.Inside unsized fs) {α : Type} (act : Resolve α) [Resolve.Local act]
    (hsymbols : (Resolve.after act n).symbols = n.symbols) : (Resolve.after act n).Inside unsized fs :=
  have hextends := Resolve.extends_of_local act h.isLocal
  ⟨h.of_eq hsymbols hextends.functions, hextends.isLocal⟩

end Names.Inside

/-- The expressions are settled where symbols have types and the functions are given. -/
def Surveyed (unsized : List String) (fs : List FunctionSymbol) (es : List Expr) : Prop :=
  ∀ e ∈ es, ∃ n : Names, n.Known unsized fs ∧ Resolve.Settled Resolve.expr n e

namespace Surveyed

variable {es es' : List Expr}

theorem nil : Surveyed unsized fs [] := by simp [Surveyed]

theorem cons (hn : n.Known unsized fs) {e : Expr} (he : Resolve.Settled Resolve.expr n e)
    (h : Surveyed unsized fs es) : Surveyed unsized fs (e :: es) := List.forall_mem_cons.mpr ⟨⟨n, hn, he⟩, h⟩

theorem append (h : Surveyed unsized fs es) (h' : Surveyed unsized fs es') : Surveyed unsized fs (es ++ es') :=
  List.forall_mem_append.mpr ⟨h, h'⟩

theorem option (hn : n.Known unsized fs) {e : Option Expr} (he : ∀ x ∈ e, Resolve.Settled Resolve.expr n x) :
    Surveyed unsized fs e.toList := fun x hx => ⟨n, hn, he x (Option.mem_toList.mp hx)⟩

end Surveyed

end

/-- What is known at the beginning of a shader. -/
theorem Names.forall_symbols_ofBuiltins {P : Symbol → Prop} {limits : Limits} (version : Version)
    (h : ∀ x ∈ Builtin.allVariables limits, P (builtinSymbol x)) :
    ∀ y ∈ (ofBuiltins version limits).symbols.symbols, P y := by
  intro y hy
  rw [symbols_ofBuiltins] at hy
  simp only [SymbolTable.symbols, List.flatMap_nil, List.nil_append, List.mem_reverse, List.mem_map] at hy
  obtain ⟨x, hx, rfl⟩ := hy
  exact h x (List.mem_of_mem_filter hx)

/-- The expressions in function bodies and values have been read. -/
theorem TopLevel.Worded.exprs {E : Expr → Prop} {d : TopLevel} (h : d.Worded false E) : ∀ e ∈ d.exprs, E e := by
  cases d with
  | globals d => exact Declaration.Worded.values h
  | function f =>
    intro e he
    obtain ⟨s, hs, he⟩ := Stmt.mem_exprsAll.mp he
    exact (h.2 s hs).forall_exprs (fun _ hd => hd.values) e he
  | _ => simp [TopLevel.exprs]

namespace Resolve

variable {unsized : List String} {fs : List FunctionSymbol} {n : Names}
  {c : Context} {ms : List Member} {p : Prototype} {isGlobal : Bool} {b : InterfaceBlock}

/-! ### Declarations -/

theorem isSized_of_checkMembers (hsilent : Silent (c.checkMembers ms)) :
    ∀ m ∈ ms, (m.ty.isError && m.array.isSome) = false := by
  intro m hm
  have hcheck := Silent.flatMap_iff.mp hsilent m hm
  simp only [Silent.append_iff] at hcheck
  exact Silent.of_findIf hcheck.1.1 rfl rfl

theorem isSized_of_checkPrototype (hsilent : Silent (c.checkPrototype p)) :
    ∀ x ∈ p.parameters, (x.ty.isError && x.array.isSome) = false := by
  intro x hx
  simp only [Context.checkPrototype, Silent.append_iff] at hsilent
  have hcheck := Silent.flatMap_iff.mp hsilent.2 x hx
  simp only [Context.checkParameter, Silent.append_iff] at hcheck
  exact Silent.of_findIf hcheck.1.1 rfl rfl

theorem filterMap_cons_eq_append {α β : Type} (f : α → Option β) (a : α) (as : List α) :
    (a :: as).filterMap f = (f a).toList ++ as.filterMap f := by
  cases h : f a <;> simp [h]

/-- The variables of a declaration, each with those before it known. -/
theorem surveyed_declarators {q : TypeQualifiers} {ty : Ty} {ds : List Declarator}
    (hn : n.Known unsized fs) (hty : ty.isError = false) (h : Settled (List.mapM (declarator q ty)) n ds)
    (hsilent : Silent (c.checkDeclarators q isGlobal ds)) :
    Surveyed unsized fs (ds.filterMap (·.value)) ∧ (after (ds.mapM (declarator q ty)) n).Known unsized fs := by
  induction ds generalizing n c with
  | nil => exact ⟨.nil, hn⟩
  | cons d ds ih =>
    obtain ⟨hd, hds⟩ := settled_mapM_cons.mp h
    obtain ⟨hvalue, -, harrayed, -⟩ := settled_declarator.mp hd
    obtain ⟨hcheck, hrest⟩ := Silent.append_iff.mp hsilent
    have hknown : d.ty.isError = false := by
      cases harray : d.array with
      | none =>
        rw [harray] at harrayed
        rw [← harrayed]
        exact hty
      | some length =>
        simp only [Context.checkDeclarator, Silent.append_iff] at hcheck
        simpa [harray] using Silent.of_findIf hcheck.1.1 rfl rfl
    have hafter : (after (declarator q ty d) n).Known unsized fs := by
      rw [after_declarator hd]
      exact hn.insert fun herror => absurd herror (Bool.eq_false_iff.mp hknown)
    obtain ⟨hsurveyed, hlast⟩ := ih hafter hds hrest
    rw [filterMap_cons_eq_append, after_mapM_cons]
    exact ⟨(Surveyed.option hn hvalue).append hsurveyed, hlast⟩

theorem surveyed_declaration {d : Declaration} (hn : n.Known unsized fs)
    (h : Settled declaration n d) (hsilent : Silent (c.checkDeclaration isGlobal d))
    (hread : d.Worded false Expr.IsRead) :
    Surveyed unsized fs d.values ∧ (after (declaration d) n).Known unsized fs := by
  obtain ⟨hstruct, hdeclarators⟩ := settled_declaration.mp h
  simp only [Context.checkDeclaration, Silent.append_iff] at hsilent
  have hmembers : (after (d.struct.mapM structDef) n).Known unsized fs := by
    cases hd : d.struct with
    | none => exact hn
    | some x =>
      rw [hd] at hstruct
      have hafter : after ((some x).mapM structDef) n = after (structDef x) n := rfl
      rw [hafter, after_structDef (settled_optionMapM_some.mp hstruct)]
      exact ⟨hn.symbols, hn.functions⟩
  rw [after_declaration]
  exact surveyed_declarators hmembers (Ty.known_of_wordlike hread.ty) hdeclarators hsilent.2

theorem surveyed_loopStart {start : LoopStart} (hn : n.Inside unsized fs) (h : Settled loopStart n start)
    (hsilent : Silent (c.checkStart start))
    (hread : start.Holds Expr.IsRead (Declaration.Worded false Expr.IsRead)) :
    Surveyed unsized fs start.exprs ∧ (after (loopStart start) n).Inside unsized fs := by
  cases hread with
  | absent | empty => exact ⟨.nil, hn⟩
  | expr he => exact ⟨.cons hn.toKnown (settled_loopStart_expr.mp h) .nil, hn⟩
  | @decl loc d hd =>
    obtain ⟨hsurveyed, hknown⟩ := surveyed_declaration hn.toKnown (settled_loopStart_decl.mp h) hsilent hd
    exact ⟨hsurveyed, hknown, (extends_of_local (declaration d) hn.isLocal).isLocal⟩

/-! ### Statements -/

/-- What the walk finds in a statement that is settled and checked silently. -/
def Surveys (unsized : List String) (fs : List FunctionSymbol) (s : Stmt) : Prop :=
  ∀ (inner check : Bool) (n : Names) (c : Context), n.Inside unsized fs → Settled (statement inner) n s →
    Silent (c.checkStmt check s) → Surveyed unsized fs s.exprs

/-- What is known after a statement. -/
theorem inside_statement {s : Stmt} {check : Bool} (hn : n.Inside unsized fs) (h : Settled (statement false) n s)
    (hsilent : Silent (c.checkStmt check s)) (hread : s.Worded false Expr.IsRead) :
    (after (statement false s) n).Inside unsized fs := by
  have hlocal := (extends_of_local (statement false s) hn.isLocal).isLocal
  cases hread with
  | decl hd =>
    refine ⟨?_, hlocal⟩
    exact (surveyed_declaration hn.toKnown (settled_stmt_decl.mp h) hsilent hd).2
  | _ => exact hn.after _ (symbols_after_statement (by rintro _ _ ⟨⟩) (.inl rfl))

theorem surveyed_statements {ss : List Stmt} (hss : ∀ s ∈ ss, Surveys unsized fs s) (hn : n.Inside unsized fs)
    (h : Settled statements n ss) (hsilent : Silent (c.checkStmts ss))
    (hread : ∀ s ∈ ss, s.Worded false Expr.IsRead) : Surveyed unsized fs (Stmt.exprsAll ss) := by
  induction ss generalizing n c with
  | nil => exact .nil
  | cons s ss ih =>
    obtain ⟨hs, hrest⟩ := settled_statements_cons.mp h
    obtain ⟨hcheck, hlater⟩ := Silent.append_iff.mp hsilent
    obtain ⟨hown, hothers⟩ := List.forall_mem_cons.mp hread
    obtain ⟨hfirst, hall⟩ := List.forall_mem_cons.mp hss
    have hafter := inside_statement hn hs hcheck hown
    exact (hfirst false false n c hn hs hcheck).append (ih hall hafter hrest hlater hothers)

/-- **The expressions of a statement.** -/
theorem surveyed_statement {s : Stmt} (hread : s.Worded false Expr.IsRead) : Surveys unsized fs s := by
  intro inner check n c hn h hsilent
  induction hread generalizing inner check n c with
  | expr => exact .cons hn.toKnown (settled_stmt_expr.mp h) .nil
  | decl hd => exact (surveyed_declaration hn.toKnown (settled_stmt_decl.mp h) hsilent hd).1
  | block hbody ih =>
    refine surveyed_statements (fun s hs i k m c hm h hq => ih s hs i k m c hm h hq) ?_ (settled_block.mp h)
      hsilent hbody
    split
    · exact hn
    · exact hn.enter (by decide)
  | ifThen _ _ ih =>
    obtain ⟨hcondition, hthen⟩ := settled_ifThen.mp h
    rw [Context.checkStmt, Silent.append_iff] at hsilent
    exact .cons hn.toKnown hcondition (ih _ _ _ _ (hn.enter (by decide)) hthen hsilent.2)
  | @ifElse _ _ thenBranch _ _ _ _ iht ihe =>
    obtain ⟨hcondition, hthen, helse⟩ := settled_ifElse.mp h
    simp only [Context.checkStmt, Silent.append_iff] at hsilent
    have hbetween := hn.after (within .block (statement true thenBranch)) (symbols_within .block (by decide) _)
    exact .cons hn.toKnown hcondition (.append (iht _ _ _ _ (hn.enter (by decide)) hthen hsilent.1.2)
      (ihe _ _ _ _ (hbetween.enter (by decide)) helse hsilent.2))
  | @forLoop _ start condition step body hstart _ _ _ ih =>
    obtain ⟨hfirst, hcondition, hstep, hbody⟩ := settled_forLoop.mp h
    simp only [Context.checkStmt, Silent.append_iff] at hsilent
    obtain ⟨hsurveyed, hhead⟩ := surveyed_loopStart (hn.enter (by decide)) hfirst hsilent.1.1.1.1 hstart
    have hbody := ih _ _ _ _ (hhead.inBody body) hbody hsilent.2
    exact ((hsurveyed.append (.option hhead.toKnown hcondition)).append (.option hhead.toKnown hstep)).append hbody
  | @whileLoop _ _ body _ _ ih =>
    obtain ⟨hcondition, hbody⟩ := settled_whileLoop.mp h
    simp only [Context.checkStmt, Silent.append_iff] at hsilent
    have hhead : (n.enter .loop).Inside unsized fs := hn.enter (by decide)
    exact .cons hhead.toKnown hcondition (ih _ _ _ _ (hhead.inBody body) hbody hsilent.2)
  | @doWhile _ _ body _ _ ih =>
    obtain ⟨hcondition, hbody⟩ := settled_doWhile.mp h
    simp only [Context.checkStmt, Silent.append_iff] at hsilent
    have hhead : (n.enter .loop).Inside unsized fs := hn.enter (by decide)
    exact .cons hhead.toKnown hcondition (ih _ _ _ _ (hhead.inBody body) hbody hsilent.2)
  | switch _ hbody ih =>
    obtain ⟨hselector, hsettled⟩ := settled_switch.mp h
    simp only [Context.checkStmt, Silent.append_iff] at hsilent
    exact .cons hn.toKnown hselector (surveyed_statements
      (fun s hs i k m c hm h hq => ih s hs i k m c hm h hq) (hn.enter (by decide)) hsettled hsilent.2 hbody)
  | label => exact .option hn.toKnown (settled_label.mp h)
  | result => exact .option hn.toKnown (settled_result.mp h)
  | jump | empty => exact .nil

/-! ### Declarations at the top -/

/-- The parameters of a function have no values. -/
theorem inside_functionNames (hn : ∀ x ∈ n.symbols.symbols, x.Sized unsized) {f : Function}
    (hp : Settled (prototype · true) n f.prototype) (hsilent : Silent (c.checkPrototype f.prototype))
    (hread : f.prototype.Worded false Expr.IsRead) :
    (functionNames n f).Inside unsized (after (prototype f.prototype true) n).functions := by
  have hknown : (after (prototype f.prototype true) n).Known unsized (after (prototype f.prototype true) n).functions :=
    ⟨by rw [symbols_after_prototype]; exact hn, rfl⟩
  have hhead := hknown.enter (show ScopeKind.function ≠ .global by decide)
  refine ⟨hhead.declareAll fun y hy => ?_, (extends_of_local (declareAll _) hhead.isLocal).isLocal⟩
  obtain ⟨x, hx, hy⟩ := List.mem_filterMap.mp hy
  obtain ⟨name, -, rfl⟩ := Option.map_eq_some_iff.mp hy
  rw [show (run (prototype f.prototype true) n).1 = f.prototype from hp.value] at hx
  have hty := (hread.parameters x hx).ty.known (isSized_of_checkPrototype hsilent x hx)
  intro herror
  rw [show x.ty.isError = true from herror] at hty
  cases hty

/-- What an interface block declares has no value, and lacks a type only as an array. -/
theorem known_interfaceBlock (hn : n.Known unsized fs) (h : Settled interfaceBlock n b)
    (hmembers : ∀ m ∈ b.members, m.ty.isError = false)
    (hblocks : ∀ name ∈ (TopLevel.block b).blockArray?, name ∈ unsized) :
    (after (interfaceBlock b) n).Known unsized fs := by
  have hstruct : (n.withStruct b.name b.members).Known unsized fs := ⟨hn.symbols, hn.functions⟩
  rw [after_interfaceBlock h]
  refine hstruct.declareAll fun y hy => ?_
  unfold blockSymbols at hy
  split at hy
  case h_2 =>
    obtain ⟨m, hm, rfl⟩ := List.mem_map.mp hy
    exact fun herror => absurd herror (Bool.eq_false_iff.mp (hmembers m hm))
  case h_1 name hname =>
    obtain rfl := List.mem_singleton.mp hy
    intro herror
    cases harray : b.array with
    | none =>
      rw [harray] at herror
      cases herror
    | some length =>
      refine ⟨hblocks name (by simp [TopLevel.blockArray?, harray, hname]), ?_⟩
      rw [harray, Names.arrayedType] at herror
      rw [Names.arrayedType]
      cases hsize : ((length.resolve _).size? (n.withStruct b.name b.members) none) with
      | none => rfl
      | some k =>
        rw [hsize] at herror
        cases herror

/-- A silent check of a block is a silent check of its members. -/
theorem silent_members_of_block (h : Silent (c.checkTopLevel (.block b))) :
    Silent (c.checkMembers b.members) := by
  simp only [Context.checkTopLevel, Context.checkBlock] at h
  split at h
  · exact absurd h (Silent.not_singleton rfl rfl)
  · exact (Silent.append_iff.mp h).2

theorem functions_after_function (f : Function) :
    (after (function f) n).functions = (after (prototype f.prototype true) n).functions := by
  rw [function_eq, after, run_bind, behind_names, functions_within .function (by decide)]
  rfl

/-- What the walk finds in a declaration at the top, and what is known after it. -/
structure SurveyedTop (unsized : List String) (n : Names) (d : TopLevel) : Prop where
  surveyed : Surveyed unsized (after (topLevel d) n).functions d.exprs
  symbols : ∀ x ∈ (after (topLevel d) n).symbols.symbols, x.Sized unsized
  functions : d.head? = none → (after (topLevel d) n).functions = n.functions

/-- **The expressions of a declaration at the top of a shader.** -/
theorem surveyed_topLevel {d : TopLevel} (hn : ∀ x ∈ n.symbols.symbols, x.Sized unsized) (h : Settled topLevel n d)
    (hsilent : Silent (c.checkTopLevel d)) (hread : d.Worded false Expr.IsRead)
    (hblocks : ∀ name ∈ d.blockArray?, name ∈ unsized) : SurveyedTop unsized n d := by
  have hknown : n.Known unsized n.functions := ⟨hn, rfl⟩
  have headless {d : TopLevel} (hd : Surveyed unsized n.functions d.exprs)
      (hafter : (after (topLevel d) n).Known unsized n.functions) : SurveyedTop unsized n d :=
    ⟨hafter.functions ▸ hd, hafter.symbols, fun _ => hafter.functions⟩
  cases d with
  | precision p ty loc | layout q loc => exact headless .nil hknown
  | globals d =>
    obtain ⟨hd, hafter⟩ := surveyed_declaration hknown (settled_globals.mp h) hsilent hread
    exact headless hd hafter
  | struct d =>
    have hafter : after (topLevel (.struct d)) n = after (structDef d) n := rfl
    refine headless .nil ?_
    rw [hafter, after_structDef (settled_struct.mp h)]
    exact ⟨hn, rfl⟩
  | block b =>
    refine headless .nil (known_interfaceBlock hknown (settled_top_block.mp h) (fun m hm => ?_) hblocks)
    exact (hread.members m hm).ty.known (isSized_of_checkMembers (silent_members_of_block hsilent) m hm)
  | prototype p =>
    refine ⟨.nil, ?_, by rintro ⟨⟩⟩
    rw [show (after (topLevel (.prototype p)) n).symbols = n.symbols from symbols_after_prototype p false]
    exact hn
  | function f =>
    obtain ⟨hp, -, hbody⟩ := settled_function.mp (settled_top_function.mp h)
    simp only [Context.checkTopLevel, Context.checkFunction, Silent.append_iff] at hsilent
    have hinside := inside_functionNames hn hp hsilent.1 hread.1
    refine ⟨?_, ?_, by rintro ⟨⟩⟩
    · rw [show (after (topLevel (.function f)) n).functions = _ from functions_after_function f]
      exact surveyed_statements (fun s hs => surveyed_statement (hread.2 s hs)) hinside hbody hsilent.2 hread.2
    · rw [show (after (topLevel (.function f)) n).symbols = n.symbols from symbols_after_function f]
      exact hn

end Resolve

end GlslEs
