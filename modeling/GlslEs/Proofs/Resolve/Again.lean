import GlslEs.Proofs.Resolve.Names
import GlslEs.Proofs.Resolve.Run

/-!
# Resolving again

What has been resolved is resolved again, with the same names known, to itself; the same names
are known after it, and the same is found.

* `Expr.resolve_resolve`: **expressions**.
* `Resolve.Settles`: a kind of syntax for which this holds.
* `Shader.resolve_resolve`: **shaders**.
-/

namespace GlslEs

/-! ### Expressions -/

namespace Expr

/-- What a call calls is settled once it has been looked up. -/
theorem resolveCall_resolveCall (n : Names) (loc : Location) (callee : Callee) (args : List Expr) :
    n.resolveCall loc (n.resolveCall loc callee args).1 args = n.resolveCall loc callee args := by
  cases callee with
  | builtin name => rfl
  | constructor ty =>
    simp only [Names.resolveCall]
    by_cases harray : ty.array = some 0
    · by_cases hargs : args.length = 0 <;> simp [harray, hargs, Ty.withArray]
    · simp [harray]
  | user name =>
    simp only [Names.resolveCall]
    by_cases hfunction : n.hasFunction name = true
    · simp [hfunction]
    · by_cases hbuiltin : Builtin.isFunction name = true
      · simp [hfunction, hbuiltin]
      · simp [hfunction, hbuiltin]

theorem resolveCall_loc (n : Names) (loc : Location) (callee : Callee) (args : List Expr) :
    (n.resolveCall loc callee args).2.loc = loc := by
  have hbuiltin : ∀ name types allConst, (n.builtinNote loc name types allConst).loc = loc := by
    intro name types allConst
    unfold Names.builtinNote
    split <;> rfl
  cases callee with
  | builtin name => exact hbuiltin _ _ _
  | constructor ty => rfl
  | user name =>
    simp only [Names.resolveCall]
    split
    · rfl
    · split
      · exact hbuiltin _ _ _
      · rfl

/-- **An expression that has been resolved is resolved to itself.** -/
theorem resolve_resolve (n : Names) (e : Expr) : (e.resolve n).resolve n = e.resolve n := by
  induction e with
  | lit note value => rfl
  | var note name =>
    simp only [resolve]
    split <;> simp [resolve, *]
  | call note callee args ih =>
    simp only [resolve, resolveAll_eq_map, List.map_map, Function.comp_def, List.map_congr_left ih,
      resolveCall_loc, resolveCall_resolveCall]
  | field note base name ih =>
    simp only [resolve]
    split
    · simp only [resolvedSwizzle, resolve, ih]
    · rename_i hnone
      simp only [resolve, ih, hnone]
  | seq note exprs ih =>
    simp only [resolve, resolveAll_eq_map, List.map_map, Function.comp_def, List.map_congr_left ih]
  | _ => simp only [resolve, resolvedSwizzle, *]

/-- A resolved expression has the undeclared names of the expression. -/
theorem nameFindings_resolve (n : Names) (e : Expr) :
    (e.resolve n).nameFindings n = e.nameFindings n := by
  induction e with
  | lit note value => rfl
  | var note name =>
    simp only [resolve]
    split <;> rfl
  | call note callee args ih =>
    simp only [resolve, nameFindings, resolveAll_eq_map, nameFindingsAll_eq_flatMap, List.flatMap_map,
      List.flatMap_congr ih, resolveCall_loc]
    congr 1
    cases callee with
    | builtin name | constructor ty => rfl
    | user name =>
      simp only [Names.resolveCall]
      by_cases hfunction : n.hasFunction name = true
      · simp [hfunction]
      · by_cases hbuiltin : Builtin.isFunction name = true
        · simp [hfunction, hbuiltin]
        · simp [hfunction, hbuiltin]
  | field note base name ih =>
    simp only [resolve]
    split <;> exact ih
  | seq note exprs ih =>
    simp only [resolve, nameFindings, resolveAll_eq_map, nameFindingsAll_eq_flatMap, List.flatMap_map,
      List.flatMap_congr ih]
  | _ => simp only [resolve, resolvedSwizzle, nameFindings, *]

end Expr

/-! ### Declarations -/

namespace ArrayLength

theorem resolve_resolve (n : Names) (length : ArrayLength) :
    (length.resolve n).resolve n = length.resolve n := by
  cases length with
  | unsized => rfl
  | sized e => exact congrArg sized (e.resolve_resolve n)

theorem nameFindings_resolve (n : Names) (length : ArrayLength) :
    (length.resolve n).nameFindings n = length.nameFindings n := by
  cases length with
  | unsized => rfl
  | sized e => exact e.nameFindings_resolve n

end ArrayLength

namespace Names

theorem map_resolve_resolve (n : Names) (array : Option ArrayLength) :
    (array.map (·.resolve n)).map (·.resolve n) = array.map (·.resolve n) := by
  cases array with
  | none => rfl
  | some length => exact congrArg some (length.resolve_resolve n)

theorem lengthFindings_map (n : Names) (array : Option ArrayLength) :
    n.lengthFindings (array.map (·.resolve n)) = n.lengthFindings array := by
  cases array with
  | none => rfl
  | some length => exact length.nameFindings_resolve n

/-- The length of an array makes the same type of the array's type. -/
theorem arrayedType_arrayedType (n : Names) (ty : Ty) (value : Option Ty)
    (array : Option ArrayLength) :
    n.arrayedType (n.arrayedType ty value array) value (array.map (·.resolve n)) =
      n.arrayedType ty value array := by
  cases array with
  | none => rfl
  | some length =>
    simp only [arrayedType, Option.map_some, ArrayLength.resolve_resolve]
    cases (length.resolve n).size? n value <;> rfl

theorem arrayedType_map (n : Names) (ty : Ty) (value : Option Ty) (array : Option ArrayLength) :
    n.arrayedType ty value (array.map (·.resolve n)) = n.arrayedType ty value array := by
  cases array with
  | none => rfl
  | some length => simp only [arrayedType, Option.map_some, ArrayLength.resolve_resolve]

theorem member_member (n : Names) (m : Member) : n.member (n.member m) = n.member m := by
  simp only [member, map_resolve_resolve, arrayedType_arrayedType]

theorem map_member_map (n : Names) (ms : List Member) :
    (ms.map n.member).map n.member = ms.map n.member := by
  simp only [List.map_map, Function.comp_def, member_member]

theorem flatMap_lengthFindings_member (n : Names) (ms : List Member) :
    (ms.map n.member).flatMap (fun m => n.lengthFindings m.array) =
      ms.flatMap fun m => n.lengthFindings m.array := by
  simp only [List.flatMap_map, member, lengthFindings_map]

theorem parameter_parameter (n : Names) (x : Parameter) :
    n.parameter (n.parameter x) = n.parameter x := by
  simp only [parameter, map_resolve_resolve, arrayedType_arrayedType]

theorem map_parameter_map (n : Names) (xs : List Parameter) :
    (xs.map n.parameter).map n.parameter = xs.map n.parameter := by
  simp only [List.map_map, Function.comp_def, parameter_parameter]

theorem flatMap_lengthFindings_parameter (n : Names) (xs : List Parameter) :
    (xs.map n.parameter).flatMap (fun x => n.lengthFindings x.array) =
      xs.flatMap fun x => n.lengthFindings x.array := by
  simp only [List.flatMap_map, parameter, lengthFindings_map]

theorem declarator_declarator (n : Names) (ty : Ty) (d : Declarator) :
    n.declarator ty (n.declarator ty d) = n.declarator ty d := by
  have hvalue : (d.value.map (·.resolve n)).map (·.resolve n) = d.value.map (·.resolve n) := by
    cases d.value with
    | none => rfl
    | some e => exact congrArg some (e.resolve_resolve n)
  simp only [declarator, map_resolve_resolve, arrayedType_map, hvalue]

theorem declaratorFindings_declarator (n : Names) (ty : Ty) (d : Declarator) :
    n.declaratorFindings (n.declarator ty d) = n.declaratorFindings d := by
  simp only [declaratorFindings, declarator, lengthFindings_map]
  cases d.value with
  | none => rfl
  | some e => exact congrArg (· ++ n.lengthFindings d.array) (e.nameFindings_resolve n)

end Names

namespace Resolve

variable {α : Type} {act : α → Resolve α}

/-- What has been resolved is resolved again to itself, with the same findings and the same names
known after it. -/
def Settles (act : α → Resolve α) (a : α) : Prop :=
  ∀ n, run (act (run (act a) n).1) n = run (act a) n

theorem Settles.mapM [∀ a, Adds (act a)] {as : List α}
    (h : ∀ a ∈ as, Settles act a) : Settles (List.mapM act) as := by
  induction as with
  | nil =>
    intro n
    rw [run_mapM_nil, run_mapM_nil]
  | cons a as ih =>
    intro n
    have ha := h a List.mem_cons_self n
    have has := ih fun x hx => h x (List.mem_cons_of_mem _ hx)
    rw [run_mapM_cons act a as, run_mapM_cons, ha, has]

theorem Settles.optionMapM {x : Option α} (h : ∀ a ∈ x, Settles act a) :
    Settles (Option.mapM act) x := by
  intro n
  cases x with
  | none => rfl
  | some a =>
    rw [run_optionMapM_some act a, run_optionMapM_some, h a rfl n]

theorem settles_expr (e : Expr) : Settles expr e := by
  intro n
  rw [run_expr, run_expr, e.resolve_resolve, e.nameFindings_resolve]

theorem settles_members (ms : List Member) : Settles members ms := by
  intro n
  rw [run_members, run_members, n.map_member_map, n.flatMap_lengthFindings_member]

theorem settles_structDef (d : StructDef) : Settles structDef d := by
  intro n
  rw [run_structDef, run_structDef]
  simp only [n.map_member_map, n.flatMap_lengthFindings_member]

theorem settles_declarator (q : TypeQualifiers) (ty : Ty) (d : Declarator) :
    Settles (declarator q ty) d := by
  intro n
  rw [run_declarator q ty d, run_declarator]
  simp only [behind_fst, Names.declarator_declarator, Names.declaratorFindings_declarator]

theorem settles_declaration (d : Declaration) : Settles declaration d := by
  intro n
  have hstruct : Settles (Option.mapM structDef) d.struct :=
    .optionMapM fun x _ => settles_structDef x
  have hdeclarators : Settles (List.mapM (declarator d.qualifiers d.ty)) d.declarators :=
    .mapM fun x _ => settles_declarator _ _ x
  simp only [declaration, run_bind, run_pure, behind_fst, hstruct n, hdeclarators _]

theorem settles_interfaceBlock (b : InterfaceBlock) : Settles interfaceBlock b := by
  intro n
  have hms := settles_members b.members n
  unfold interfaceBlock
  rcases hname : b.instanceName with - | name
  · simp only [run_bind, run_pure, behind_fst, hms]
  · simp only [run_bind, run_pure, behind_fst, run_arrayed, hms, Names.map_resolve_resolve,
      Names.lengthFindings_map, Names.arrayedType_map]

theorem settles_prototype (p : Prototype) (defining : Bool) : Settles (prototype · defining) p := by
  intro n
  simp only [run_prototype, behind_fst, n.map_parameter_map, n.flatMap_lengthFindings_parameter]

/-! ### Statements -/

theorem settles_loopStart (start : LoopStart) : Settles loopStart start := by
  intro n
  cases start with
  | absent | empty loc => rfl
  | expr loc e =>
    have h := settles_expr e n
    simp only [loopStart, run_bind, run_pure, behind_fst, h]
  | decl loc d =>
    have h := settles_declaration d n
    simp only [loopStart, run_bind, run_pure, behind_fst, h]

theorem isBlock_statement (inner : Bool) (s : Stmt) (n : Names) :
    (run (statement inner s) n).1.isBlock = s.isBlock := by
  cases s <;> rfl

theorem settles_statements {ss : List Stmt} (h : ∀ s ∈ ss, Settles (statement false) s) :
    Settles statements ss := by
  induction ss with
  | nil => exact fun n => rfl
  | cons s ss ih =>
    intro n
    have hs := h s List.mem_cons_self n
    have hss := ih fun x hx => h x (List.mem_cons_of_mem _ hx)
    rw [run_statements_cons s ss, run_statements_cons, hs, hss]

theorem Settles.within {a : α} (h : Settles act a) (kind : ScopeKind) :
    Settles (fun a => within kind (act a)) a := by
  intro n
  simp only [run_within, h _]

/-- The body of a loop: what is resolved has braces exactly if it had them. -/
theorem settles_loopBody {body : Stmt} (h : Settles (statement true) body) :
    Settles (fun s => loopBody s (statement true s)) body := by
  intro n
  by_cases hblock : body.isBlock = true
  · simp only [loopBody, hblock, if_true, isBlock_statement, h n]
  · simp only [loopBody, hblock, if_false, run_within, isBlock_statement, h _, Bool.false_eq_true]

theorem settles_statement (inner : Bool) (s : Stmt) : Settles (statement inner) s := by
  induction s using Stmt.forall_of_children generalizing inner with
  | h s ih =>
    intro n
    cases s with
    | expr loc e =>
      have h := settles_expr e n
      simp only [statement, run_bind, run_pure, behind_fst, h]
    | decl loc d =>
      have h := settles_declaration d n
      simp only [statement, run_bind, run_pure, behind_fst, h]
    | block loc body =>
      have h : Settles statements body := settles_statements fun s hs => ih s hs false
      cases inner with
      | true => simp only [statement, run_map, if_true, h n]
      | false => simp only [statement, run_map, if_false, run_within, h _, Bool.false_eq_true]
    | ifThen loc condition thenBranch =>
      have h := (ih thenBranch (by simp [Stmt.children]) true).within .block n
      simp only [run_ifThen, condition.resolve_resolve, condition.nameFindings_resolve, h]
    | ifElse loc condition thenBranch elseBranch =>
      have hthen := (ih thenBranch (by simp [Stmt.children]) true).within .block
      have helse := (ih elseBranch (by simp [Stmt.children]) true).within .block
      simp only [run_ifElse, condition.resolve_resolve, condition.nameFindings_resolve, hthen n, helse _]
    | forLoop loc start condition step body =>
      have hbody := settles_loopBody (ih body (by simp [Stmt.children]) true)
      have hstart := settles_loopStart start
      have hcondition : Settles (Option.mapM expr) condition := .optionMapM fun e _ => settles_expr e
      have hstep : Settles (Option.mapM expr) step := .optionMapM fun e _ => settles_expr e
      simp only [statement, run_within, run_bind, run_map, behind_fst, behind_names, hstart _,
        hcondition _, hstep _, hbody _]
    | whileLoop loc condition body =>
      have hbody := settles_loopBody (ih body (by simp [Stmt.children]) true)
      simp only [statement, run_within, run_bind, run_map, run_expr, behind_fst,
        condition.resolve_resolve, condition.nameFindings_resolve, hbody _]
    | doWhile loc body condition =>
      have hbody := settles_loopBody (ih body (by simp [Stmt.children]) true)
      simp only [statement, run_within, run_bind, run_pure, run_expr, behind_fst,
        condition.resolve_resolve, condition.nameFindings_resolve, hbody _]
    | switch loc selector bodyLoc body =>
      have h : Settles statements body := settles_statements fun s hs => ih s hs false
      have hwithin := h.within .block n
      simp only [statement, run_bind, run_pure, run_expr, behind_fst, selector.resolve_resolve,
        selector.nameFindings_resolve, hwithin]
    | label loc value | result loc value =>
      have h : Settles (Option.mapM expr) value := .optionMapM fun e _ => settles_expr e
      simp only [statement, run_bind, run_pure, behind_fst, h n]
    | jump loc kind | empty loc => rfl

theorem settles_function (f : Function) : Settles function f := by
  intro n
  have hprototype := settles_prototype f.prototype true n
  have hbody : Settles statements f.body := settles_statements fun s _ => settles_statement false s
  simp only [function_eq, run_bind, run_pure, run_within, behind_fst, hprototype, hbody _]

theorem settles_topLevel (t : TopLevel) : Settles topLevel t := by
  intro n
  cases t with
  | precision p ty loc | layout q loc => rfl
  | globals d =>
    have h := settles_declaration d n
    simp only [topLevel, run_bind, run_pure, behind_fst, h]
  | struct d =>
    have h := settles_structDef d n
    simp only [topLevel, run_bind, run_pure, behind_fst, h]
  | block b =>
    have h := settles_interfaceBlock b n
    simp only [topLevel, run_bind, run_pure, behind_fst, h]
  | prototype p =>
    have h := settles_prototype p false n
    simp only [topLevel, run_bind, run_pure, behind_fst, h]
  | function f =>
    have h := settles_function f n
    simp only [topLevel, run_bind, run_pure, behind_fst, h]

end Resolve

/-- **A shader that has been resolved is resolved again to itself, with the same findings.** -/
theorem Shader.resolve_resolve (s : Shader) (limits : Limits) :
    (s.resolve limits).1.resolve limits = s.resolve limits := by
  have h : Resolve.Settles (List.mapM Resolve.topLevel) s.declarations :=
    .mapM fun t _ => Resolve.settles_topLevel t
  have hrun : Shader.resolution { s with declarations := (s.resolution limits).1 } limits =
      s.resolution limits := h (.ofBuiltins s.version limits)
  rw [resolve_eq s, resolve_eq, hrun]

end GlslEs
