import GlslEs.Proofs.Check.Accepted
import GlslEs.Proofs.Resolve.Alike
import Mathlib.Tactic.Tauto

/-!
# Syntax that is resolved already

Where certain names are known, a piece of syntax is settled if resolving it changes nothing and finds
nothing.  It is settled exactly if its parts are, each with the names that are known where it stands.

* `Resolve.Settled`: resolving changes nothing and finds nothing.
* `Resolve.settled_ifThen` and the like: what this means for statements.
* `Shader.settled_of_parse`: **what has been read without a finding is settled.**
-/

namespace GlslEs

/-- The expression in an optional array length. -/
def lengthExprs : Option ArrayLength → List Expr
  | some (.sized e) => [e]
  | _ => []

/-- The names once the members of a structure or block are known. -/
def Names.withStruct (n : Names) (name : String) (ms : List Member) : Names :=
  { n with structs := (name, Resolve.memberTypes ms) :: n.structs }

/-- The names behind the head of a function. -/
def Names.withFunction (n : Names) (p : Prototype) (defining : Bool) : Names :=
  match (n.overloads p.name).find? (·.parameters == p.parameterTypes) with
  | some _ => if defining then { n with functions := Resolve.markDefined p.name p.parameterTypes n.functions } else n
  | none => { n with functions := n.functions ++ [⟨p.name, p.parameterTypes, p.result, defining, p.loc⟩] }

/-- Whether a function can be declared. -/
structure Names.AcceptsFunction (n : Names) (p : Prototype) (defining : Bool) : Prop where
  notReserved : Resolve.isReservedName p.name = false
  notVariable : n.symbols.findGlobal? p.name = none
  notBuiltin : (n.version.isEs3 && Builtin.isFunction p.name) = false
  overload : ∀ f, (n.overloads p.name).find? (·.parameters == p.parameterTypes) = some f →
    f.result = p.result ∧ (defining && f.isDefined) = false

namespace Resolve

variable {α : Type} {n : Names} {act : α → Resolve α} {a : α} {as : List α} {f : Function} {d : StructDef}
  {q : TypeQualifiers} {p : Prototype} {defining : Bool} {ms : List Member} {b : InterfaceBlock}

/-- Resolving changes nothing and finds nothing. -/
structure Settled (act : α → Resolve α) (n : Names) (a : α) : Prop where
  value : (run (act a) n).1 = a
  findings : (run (act a) n).2.findings = []

theorem settled_iff : Settled act n a ↔ (run (act a) n).1 = a ∧ (run (act a) n).2.findings = [] :=
  ⟨fun h => ⟨h.value, h.findings⟩, fun h => ⟨h.1, h.2⟩⟩

/-- Syntax with one part is settled exactly if the part is. -/
theorem settled_map {β : Type} {act' : β → Resolve β} {g : α → β} (hg : ∀ x y, g x = g y → x = y)
    (h : run (act' (g a)) n = run (g <$> act a) n) : Settled act' n (g a) ↔ Settled act n a := by
  rw [settled_iff, settled_iff, h, run_map]
  exact and_congr_left' ⟨hg _ _, congrArg g⟩

/-! ### Lists -/

theorem settled_mapM_nil (act : α → Resolve α) : Settled (List.mapM act) n [] := by
  rw [settled_iff, run_mapM_nil]
  exact ⟨rfl, rfl⟩

theorem settled_mapM_cons [∀ a, Adds (act a)] :
    Settled (List.mapM act) n (a :: as) ↔
      Settled act n a ∧ Settled (List.mapM act) (after (act a) n) as := by
  simp only [settled_iff, run_mapM_cons, List.cons.injEq, List.append_eq_nil_iff, after]
  tauto

theorem after_mapM_nil (act : α → Resolve α) : after (List.mapM act []) n = n := by
  rw [after, run_mapM_nil]

theorem after_mapM_cons [∀ a, Adds (act a)] (a : α) (as : List α) :
    after (List.mapM act (a :: as)) n = after (List.mapM act as) (after (act a) n) := by
  rw [after, run_mapM_cons]
  rfl

theorem settled_optionMapM_none (act : α → Resolve α) : Settled (Option.mapM act) n none := ⟨rfl, rfl⟩

theorem settled_optionMapM_some : Settled (Option.mapM act) n (some a) ↔ Settled act n a := by
  simp only [settled_iff, run_optionMapM_some, Option.some.injEq]

theorem settled_statements_nil : Settled statements n [] := ⟨rfl, rfl⟩

theorem settled_statements_cons {s : Stmt} {ss : List Stmt} :
    Settled statements n (s :: ss) ↔
      Settled (statement false) n s ∧ Settled statements (after (statement false s) n) ss := by
  simp only [settled_iff, run_statements_cons, List.cons.injEq, List.append_eq_nil_iff, after]
  tauto

theorem after_statements_cons (s : Stmt) (ss : List Stmt) :
    after (statements (s :: ss)) n = after (statements ss) (after (statement false s) n) := by
  rw [after, run_statements_cons]
  rfl

/-! ### Expressions and declarations -/

theorem settled_expr {e : Expr} : Settled expr n e ↔ e.resolve n = e ∧ e.nameFindings n = [] := by
  rw [settled_iff, run_expr]

theorem settled_option {e : Option Expr} :
    Settled (Option.mapM expr) n e ↔ ∀ x ∈ e, Settled expr n x := by
  cases e with
  | none => exact ⟨fun _ _ h => (by cases h), fun _ => settled_optionMapM_none expr⟩
  | some x => simp [settled_optionMapM_some]

@[simp] theorem after_option (e : Option Expr) : after (e.mapM expr) n = n := by
  cases e <;> rfl

/-- An array length is settled exactly if its expression is. -/
theorem settled_length {array : Option ArrayLength} :
    array.map (·.resolve n) = array ∧ n.lengthFindings array = [] ↔
      ∀ e ∈ lengthExprs array, Settled expr n e := by
  cases array with
  | none => simp [lengthExprs, Names.lengthFindings]
  | some length =>
    cases length with
    | unsized => simp [lengthExprs, Names.lengthFindings, ArrayLength.resolve, ArrayLength.nameFindings]
    | sized e => simp [lengthExprs, Names.lengthFindings, ArrayLength.resolve,
        ArrayLength.nameFindings, settled_expr]

theorem settled_member {m : Member} :
    n.member m = m ∧ n.lengthFindings m.array = [] ↔
      (∀ e ∈ lengthExprs m.array, Settled expr n e) ∧ n.arrayedType m.ty none m.array = m.ty := by
  rw [← settled_length]
  obtain ⟨name, ty, array, layout, precision, loc⟩ := m
  simp only [Names.member, Member.mk.injEq, true_and, and_true]
  tauto

theorem settled_parameter {x : Parameter} :
    n.parameter x = x ∧ n.lengthFindings x.array = [] ↔
      (∀ e ∈ lengthExprs x.array, Settled expr n e) ∧ n.arrayedType x.ty none x.array = x.ty := by
  rw [← settled_length]
  obtain ⟨name, ty, array, isConst, direction, precision, loc⟩ := x
  simp only [Names.parameter, Parameter.mk.injEq, true_and, and_true]
  tauto

theorem settled_structDef :
    Settled structDef n d ↔
      (∀ m ∈ d.members, n.member m = m ∧ n.lengthFindings m.array = []) ∧
        n.structs.lookup d.name = none := by
  have hmembers : ({ d with members := d.members.map n.member } = d) ↔
      ∀ m ∈ d.members, n.member m = m := by
    obtain ⟨name, members, loc⟩ := d
    simp only [StructDef.mk.injEq, true_and, and_true, map_eq_self_iff]
  rw [settled_iff, run_structDef]
  simp only [hmembers, List.append_eq_nil_iff, List.flatMap_eq_nil_iff, ite_eq_right_iff,
    Option.isSome_iff_ne_none, forall_and, List.cons_ne_nil, imp_false, Decidable.not_not]
  tauto

theorem after_structDef (h : Settled structDef n d) :
    after (structDef d) n = n.withStruct d.name d.members := by
  have hmembers : d.members.map n.member = d.members :=
    map_eq_self_iff.mpr fun m hm => ((settled_structDef.mp h).1 m hm).1
  rw [after, run_structDef, hmembers]
  rfl

theorem settled_declarator {ty : Ty} {d : Declarator} :
    Settled (declarator q ty) n d ↔
      (∀ e ∈ d.value, Settled expr n e) ∧ (∀ e ∈ lengthExprs d.array, Settled expr n e) ∧
        n.arrayedType ty (d.value.map Expr.ty) d.array = d.ty ∧ n.accepts (n.symbolOf q d) = true := by
  have hvalue : (∀ e ∈ d.value, Settled expr n e) ↔ d.value.map (·.resolve n) = d.value ∧
      (d.value.map (·.nameFindings n)).getD [] = [] := by
    cases d.value <;> simp [settled_expr]
  have hd : n.declarator ty d = d ↔ d.value.map (·.resolve n) = d.value ∧
      d.array.map (·.resolve n) = d.array ∧
      n.arrayedType ty ((d.value.map (·.resolve n)).map Expr.ty) d.array = d.ty := by
    obtain ⟨name, ty, array, value, loc⟩ := d
    simp only [Names.declarator, Declarator.mk.injEq, true_and, and_true]
    tauto
  rw [hvalue, ← settled_length]
  simp only [settled_iff, run_declarator, behind_fst, behind_findings, List.append_eq_nil_iff,
    findings_declare_eq_nil]
  constructor
  · rintro ⟨hsame, hfindings, haccepts⟩
    rw [hsame] at haccepts
    obtain ⟨hexpr, hlength, htype⟩ := hd.mp hsame
    rw [Names.declaratorFindings, List.append_eq_nil_iff] at hfindings
    rw [hexpr] at htype
    exact ⟨⟨hexpr, hfindings.1⟩, ⟨hlength, hfindings.2⟩, htype, haccepts⟩
  · rintro ⟨⟨hexpr, hnames⟩, ⟨hlength, hfindings⟩, htype, haccepts⟩
    have hsame : n.declarator ty d = d := hd.mpr ⟨hexpr, hlength, by rw [hexpr, htype]⟩
    rw [hsame]
    exact ⟨rfl, by rw [Names.declaratorFindings, hnames, hfindings]; rfl, haccepts⟩

theorem after_declarator {ty : Ty} {d : Declarator}
    (h : Settled (declarator q ty) n d) : after (declarator q ty d) n = n.insert (n.symbolOf q d) := by
  have haccepts := (settled_declarator.mp h).2.2.2
  have hvalue : n.declarator ty d = d := by
    have hrun := h.value
    rwa [run_declarator] at hrun
  rw [after, run_declarator, behind_names, hvalue, run_declare_of_accepts haccepts]

theorem settled_declaration {d : Declaration} :
    Settled declaration n d ↔ Settled (Option.mapM structDef) n d.struct ∧
      Settled (List.mapM (declarator d.qualifiers d.ty)) (after (d.struct.mapM structDef) n)
        d.declarators := by
  obtain ⟨qualifiers, ty, struct, array, declarators, loc⟩ := d
  simp only [settled_iff, declaration, run_bind, run_pure, behind_fst, behind_findings,
    List.append_eq_nil_iff, Declaration.mk.injEq, after]
  tauto

theorem after_declaration (d : Declaration) :
    after (declaration d) n =
      after (d.declarators.mapM (declarator d.qualifiers d.ty)) (after (d.struct.mapM structDef) n) := by
  simp only [after, declaration, run_bind, run_pure, behind_names]

/-! ### Statements -/

section Statements

variable {inner : Bool} {loc bodyLoc : Location} {e condition selector : Expr} {value step : Option Expr}
  {d : Declaration} {start : LoopStart} {s thenBranch elseBranch body : Stmt} {ss : List Stmt}

theorem settled_stmt_expr : Settled (statement inner) n (.expr loc e) ↔ Settled expr n e :=
  settled_map (fun _ _ h => (Stmt.expr.inj h).2) rfl

theorem settled_stmt_decl : Settled (statement inner) n (.decl loc d) ↔ Settled declaration n d :=
  settled_map (fun _ _ h => (Stmt.decl.inj h).2) rfl

theorem settled_block :
    Settled (statement inner) n (.block loc ss) ↔
      Settled statements (if inner then n else n.enter .block) ss := by
  cases inner <;> simp only [settled_iff, statement, run_map, run_within, Stmt.block.injEq, true_and,
    if_true, if_false, Bool.false_eq_true]

theorem settled_ifThen :
    Settled (statement inner) n (.ifThen loc condition thenBranch) ↔
      Settled expr n condition ∧ Settled (statement true) (n.enter .block) thenBranch := by
  simp only [settled_iff, run_ifThen, run_within, run_expr, List.append_eq_nil_iff, Stmt.ifThen.injEq]
  tauto

theorem settled_ifElse :
    Settled (statement inner) n (.ifElse loc condition thenBranch elseBranch) ↔
      Settled expr n condition ∧ Settled (statement true) (n.enter .block) thenBranch ∧
        Settled (statement true) ((after (within .block (statement true thenBranch)) n).enter .block)
          elseBranch := by
  simp only [settled_iff, run_ifElse, run_within, run_expr, List.append_eq_nil_iff, Stmt.ifElse.injEq, after]
  tauto

theorem settled_loopStart_expr : Settled loopStart n (.expr loc e) ↔ Settled expr n e :=
  settled_map (fun _ _ h => (LoopStart.expr.inj h).2) rfl

theorem settled_loopStart_decl : Settled loopStart n (.decl loc d) ↔ Settled declaration n d :=
  settled_map (fun _ _ h => (LoopStart.decl.inj h).2) rfl

theorem settled_forLoop :
    Settled (statement inner) n (.forLoop loc start value step body) ↔
      Settled loopStart (n.enter .loop) start ∧
        (∀ e ∈ value, Settled expr (after (loopStart start) (n.enter .loop)) e) ∧
        (∀ e ∈ step, Settled expr (after (loopStart start) (n.enter .loop)) e) ∧
        Settled (statement true) ((after (loopStart start) (n.enter .loop)).inBody body) body := by
  rw [← settled_option, ← settled_option]
  simp only [settled_iff, run_forLoop, run_option, List.append_eq_nil_iff, Stmt.forLoop.injEq, after]
  tauto

theorem settled_whileLoop :
    Settled (statement inner) n (.whileLoop loc condition body) ↔
      Settled expr (n.enter .loop) condition ∧
        Settled (statement true) ((n.enter .loop).inBody body) body := by
  simp only [settled_iff, run_whileLoop, run_expr, List.append_eq_nil_iff, Stmt.whileLoop.injEq]
  tauto

theorem settled_doWhile :
    Settled (statement inner) n (.doWhile loc body condition) ↔
      Settled expr (n.enter .loop) condition ∧
        Settled (statement true) ((n.enter .loop).inBody body) body := by
  simp only [settled_iff, run_doWhile, run_expr, List.append_eq_nil_iff, Stmt.doWhile.injEq]
  tauto

theorem settled_switch :
    Settled (statement inner) n (.switch loc selector bodyLoc ss) ↔
      Settled expr n selector ∧ Settled statements (n.enter .block) ss := by
  simp only [settled_iff, run_switch, run_expr, List.append_eq_nil_iff, Stmt.switch.injEq]
  tauto

theorem settled_label :
    Settled (statement inner) n (.label loc value) ↔ ∀ e ∈ value, Settled expr n e :=
  (settled_map (fun _ _ h => (Stmt.label.inj h).2) rfl).trans settled_option

theorem settled_result :
    Settled (statement inner) n (.result loc value) ↔ ∀ e ∈ value, Settled expr n e :=
  (settled_map (fun _ _ h => (Stmt.result.inj h).2) rfl).trans settled_option

end Statements

/-- No statement but a declaration, or a block that shares a scope, leaves symbols behind. -/
theorem symbols_after_statement {inner : Bool} {s : Stmt} (hdecl : ∀ loc d, s ≠ .decl loc d)
    (hblock : inner = false ∨ s.isBlock = false) :
    (after (statement inner s) n).symbols = n.symbols := by
  cases s with
  | expr loc e => rfl
  | decl loc d => exact absurd rfl (hdecl loc d)
  | block loc body =>
    rcases hblock with rfl | hblock
    · exact symbols_within .block (by decide) (statements body)
    · cases hblock
  | ifThen loc condition thenBranch =>
    rw [after, run_ifThen]
    exact symbols_within .block (by decide) (statement true thenBranch)
  | ifElse loc condition thenBranch elseBranch =>
    rw [after, run_ifElse]
    exact (symbols_within .block (by decide) (statement true elseBranch)).trans
      (symbols_within .block (by decide) (statement true thenBranch))
  | forLoop loc start condition step body | whileLoop loc condition body | doWhile loc body condition =>
    rw [statement]
    exact symbols_within .loop (by decide) _
  | switch loc selector bodyLoc body =>
    rw [after, run_switch]
    exact symbols_within .block (by decide) (statements body)
  | label loc value | result loc value => exact congrArg Names.symbols (after_option value)
  | jump loc kind | empty loc => rfl

/-! ### Declarations at the top -/

theorem run_declareFunction (h : n.AcceptsFunction p defining) :
    run (declareFunction p defining) n = ((), ⟨n.withFunction p defining, []⟩) := by
  unfold declareFunction Names.withFunction
  rw [run_names_bind]
  simp only [h.notReserved, h.notVariable, h.notBuiltin, Option.isSome_none, Bool.false_eq_true, if_false]
  cases hf : (n.overloads p.name).find? (·.parameters == p.parameterTypes) with
  | some f =>
    obtain ⟨hresult, hdefined⟩ := h.overload f hf
    simp only [hresult, hdefined, ne_eq, not_true_eq_false, if_false, Bool.false_eq_true]
    split <;> rfl
  | none => rfl

theorem findings_declareFunction :
    (run (declareFunction p defining) n).2.findings = [] ↔ n.AcceptsFunction p defining := by
  refine ⟨fun h => ?_, fun h => by rw [run_declareFunction h]⟩
  unfold declareFunction at h
  rw [run_names_bind] at h
  split at h
  · simp [run_report] at h
  · rename_i hreserved
    split at h
    · simp [run_report] at h
    · rename_i hvariable
      split at h
      · simp [run_report] at h
      · rename_i hbuiltin
        refine ⟨by simpa using hreserved, by simpa using hvariable, by simpa using hbuiltin, fun f hf => ?_⟩
        simp only [hf] at h
        split at h
        · simp [run_report] at h
        · rename_i hresult
          split at h
          · simp [run_report] at h
          · rename_i hdefined
            exact ⟨by simpa using hresult, by simpa using hdefined⟩

theorem after_declareFunction (h : n.AcceptsFunction p defining) :
    after (declareFunction p defining) n = n.withFunction p defining := by
  rw [after, run_declareFunction h]

theorem settled_prototype :
    Settled (prototype · defining) n p ↔
      (∀ x ∈ p.parameters, n.parameter x = x ∧ n.lengthFindings x.array = []) ∧
        (run (declareFunction p defining) n).2.findings = [] := by
  have hparameters : ({ p with parameters := p.parameters.map n.parameter } = p) ↔
      ∀ x ∈ p.parameters, n.parameter x = x := by
    obtain ⟨name, result, precision, parameters, loc⟩ := p
    simp only [Prototype.mk.injEq, true_and, and_true, map_eq_self_iff]
  simp only [settled_iff, run_prototype, behind_fst, behind_findings, List.append_eq_nil_iff,
    List.flatMap_eq_nil_iff, forall_and, and_assoc]
  constructor
  · rintro ⟨hvalue, hfindings, hdeclare⟩
    rw [hvalue] at hdeclare
    exact ⟨hparameters.mp hvalue, hfindings, hdeclare⟩
  · rintro ⟨hvalue, hfindings, hdeclare⟩
    refine ⟨hparameters.mpr hvalue, hfindings, ?_⟩
    rw [hparameters.mpr hvalue]
    exact hdeclare

theorem after_prototype (h : Settled (prototype · defining) n p) :
    after (prototype p defining) n = after (declareFunction p defining) n := by
  have hvalue := h.value
  simp only [run_prototype, behind_fst] at hvalue
  simp only [after, run_prototype, behind_names, hvalue]

/-- The names that are known at the beginning of a function's body. -/
def functionNames (n : Names) (f : Function) : Names :=
  after (declareAll ((run (prototype f.prototype true) n).1.parameters.filterMap Parameter.symbol?))
    ((after (prototype f.prototype true) n).enter .function)

theorem settled_function :
    Settled function n f ↔ Settled (prototype · true) n f.prototype ∧
      (run (declareAll (f.prototype.parameters.filterMap Parameter.symbol?))
        ((after (prototype f.prototype true) n).enter .function)).2.findings = [] ∧
      Settled statements (functionNames n f) f.body := by
  obtain ⟨p, loc, body⟩ := f
  simp only [settled_iff, function_eq, run_bind, run_pure, run_within, behind_fst, behind_findings,
    List.append_eq_nil_iff, Function.mk.injEq, and_true, true_and, functionNames, after]
  constructor
  · rintro ⟨⟨hvalue, hbody⟩, hfindings, hdeclare, hrest⟩
    rw [hvalue] at hdeclare
    exact ⟨⟨hvalue, hfindings⟩, hdeclare, hbody, hrest⟩
  · rintro ⟨⟨hvalue, hfindings⟩, hdeclare, hbody, hrest⟩
    refine ⟨⟨hvalue, hbody⟩, hfindings, ?_, hrest⟩
    rw [hvalue]
    exact hdeclare

theorem settled_members :
    Settled members n ms ↔ ∀ m ∈ ms, n.member m = m ∧ n.lengthFindings m.array = [] := by
  simp only [settled_iff, run_members, map_eq_self_iff, List.flatMap_eq_nil_iff, forall_and]

/-- What a block declares: itself under a name of its own, or else its members. -/
def blockSymbols (n : Names) (b : InterfaceBlock) : List Symbol :=
  match b.instanceName with
  | some name =>
    [⟨name, .variable_, n.arrayedType (.struct b.name) none b.array, b.qualifiers.toSet, none, b.loc⟩]
  | none => b.members.map (Member.symbol b.qualifiers.toSet)

/-- The length of a block, which counts only for a block with a name of its own. -/
def blockLength? (b : InterfaceBlock) : Option ArrayLength :=
  if b.instanceName.isSome then b.array else none

theorem lengthExprs_blockLength? (b : InterfaceBlock) :
    lengthExprs (blockLength? b) = if b.instanceName.isSome then lengthExprs b.array else [] := by
  unfold blockLength?
  split <;> rfl

theorem run_interfaceBlock (b : InterfaceBlock) :
    run (interfaceBlock b) n =
      let resolved := { b with members := b.members.map n.member }
      let m := n.withStruct b.name resolved.members
      behind ((b.members.flatMap fun x => n.lengthFindings x.array) ++ m.lengthFindings (blockLength? b))
        ({ resolved with array := if b.instanceName.isSome then b.array.map (·.resolve m) else b.array },
          (run (declareAll (blockSymbols m resolved)) m).2) := by
  rw [interfaceBlock_eq]
  cases hname : b.instanceName with
  | some name =>
    simp [run_bind, run_map, run_members, run_updateNames, run_arrayed, behind, Names.withStruct,
      blockSymbols, blockLength?, declareAll, hname]
  | none =>
    simp [run_bind, run_map, run_members, run_updateNames, behind, Names.withStruct, blockSymbols,
      blockLength?, Names.lengthFindings, hname]

theorem settled_interfaceBlock :
    Settled interfaceBlock n b ↔ Settled members n b.members ∧
      (∀ e ∈ lengthExprs (blockLength? b), Settled expr (n.withStruct b.name b.members) e) ∧
      (run (declareAll (blockSymbols (n.withStruct b.name b.members) b))
        (n.withStruct b.name b.members)).2.findings = [] := by
  have hb : ∀ ms (m : Names), ({ b with
        members := ms, array := if b.instanceName.isSome then b.array.map (·.resolve m) else b.array } = b) ↔
      ms = b.members ∧ (blockLength? b).map (·.resolve m) = blockLength? b := by
    intro ms m
    obtain ⟨qualifiers, name, members, instanceName, array, loc⟩ := b
    cases instanceName <;> simp [blockLength?]
  rw [← settled_length]
  simp only [settled_iff, run_interfaceBlock, run_members, behind_fst, behind_findings,
    List.append_eq_nil_iff, hb]
  constructor
  · rintro ⟨⟨hms, harray⟩, ⟨hmembers, hlength⟩, hdeclare⟩
    rw [hms] at harray hlength hdeclare
    exact ⟨⟨hms, hmembers⟩, ⟨harray, hlength⟩, hdeclare⟩
  · rintro ⟨⟨hms, hmembers⟩, ⟨harray, hlength⟩, hdeclare⟩
    rw [hms]
    exact ⟨⟨rfl, harray⟩, ⟨hmembers, hlength⟩, hdeclare⟩

theorem map_member_of_settled (h : Settled members n ms) : ms.map n.member = ms :=
  map_eq_self_iff.mpr fun m hm => (settled_members.mp h m hm).1

theorem after_interfaceBlock (h : Settled interfaceBlock n b) :
    after (interfaceBlock b) n =
      after (declareAll (blockSymbols (n.withStruct b.name b.members) b)) (n.withStruct b.name b.members) := by
  have hms := map_member_of_settled (settled_interfaceBlock.mp h).1
  rw [after, run_interfaceBlock]
  simp only [behind_names, hms, after]

theorem settled_globals {d : Declaration} :
    Settled topLevel n (.globals d) ↔ Settled declaration n d :=
  settled_map (fun _ _ => TopLevel.globals.inj) rfl

theorem settled_struct : Settled topLevel n (.struct d) ↔ Settled structDef n d :=
  settled_map (fun _ _ => TopLevel.struct.inj) rfl

theorem settled_top_block : Settled topLevel n (.block b) ↔ Settled interfaceBlock n b :=
  settled_map (fun _ _ => TopLevel.block.inj) rfl

theorem settled_top_prototype :
    Settled topLevel n (.prototype p) ↔ Settled (prototype · false) n p :=
  settled_map (fun _ _ => TopLevel.prototype.inj) rfl

theorem settled_top_function : Settled topLevel n (.function f) ↔ Settled function n f :=
  settled_map (fun _ _ => TopLevel.function.inj) rfl

end Resolve

/-! ### Nodes of expressions -/

namespace Expr

variable {note : Note} {args : List Expr} {name : String}

open Resolve

variable {n : Names}

/-- The operands of a settled expression are settled. -/
theorem settled_children {e c : Expr} (h : Settled expr n e) (hc : c ∈ e.children) :
    Settled expr n c := by
  obtain ⟨hresolve, hfindings⟩ := settled_expr.mp h
  rw [nameFindings_eq_nil, forall_mem_nodes] at hfindings
  exact settled_expr.mpr ⟨resolve_children hresolve hc, nameFindings_eq_nil.mpr (hfindings.2 c hc)⟩

theorem settled_nodes {e x : Expr} (h : Settled expr n e) (hx : x ∈ e.nodes) : Settled expr n x :=
  forall_nodes_of (fun _ h _ hc => settled_children h hc) h x hx

theorem resolveCall_of_settled {callee : Callee}
    (h : Settled expr n (.call note callee args)) : n.resolveCall note.loc callee args = (callee, note) := by
  have hresolve := (settled_expr.mp h).1
  simp only [resolve, call.injEq] at hresolve
  rw [hresolve.2.2] at hresolve
  exact Prod.ext hresolve.2.1 hresolve.1

theorem declared_of_settled {e : Expr} (h : Settled expr n e) : e.Declared n :=
  nameFindings_eq_nil.mp (settled_expr.mp h).2 e (mem_nodes_self e)

/-- A settled call of a user's function calls one that is declared. -/
theorem hasFunction_of_settled (h : Settled expr n (.call note (.user name) args)) : n.hasFunction name = true := by
  have hresolve := (settled_expr.mp h).1
  cases hfunction : n.hasFunction name with
  | true => rfl
  | false =>
    rcases declared_of_settled h with hdeclared | hbuiltin
    · exact hfunction.symm.trans hdeclared
    · simp [resolve, Names.resolveCall, hfunction, hbuiltin] at hresolve

end Expr

namespace Shader

variable {source : String} {limits : Limits} {s : Shader}

/-- The declarations of a shader are settled exactly if resolving the shader changes nothing and
nothing is reported. -/
theorem settled_iff :
    Resolve.Settled (List.mapM Resolve.topLevel) (.ofBuiltins s.version limits) s.declarations ↔
      s.resolve limits = (s, []) := by
  have hs : ∀ ds, ({ s with declarations := ds } = s) ↔ ds = s.declarations := by
    intro ds
    obtain ⟨version, explicitVersion, extensions, declarations⟩ := s
    simp only [Shader.mk.injEq, true_and]
  have hnil := s.resolve_eq_nil_iff limits
  unfold resolution at hnil
  rw [Resolve.settled_iff, ← hnil, Prod.ext_iff, ← hs]
  rfl

/-- **What has been read without a finding is settled.** -/
theorem settled_of_parse (h : parse source limits = .ok (s, [])) :
    Resolve.Settled (List.mapM Resolve.topLevel) (.ofBuiltins s.version limits) s.declarations :=
  settled_iff.mpr (resolve_of_parse h)

end Shader

end GlslEs
