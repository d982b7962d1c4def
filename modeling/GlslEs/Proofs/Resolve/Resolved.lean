import GlslEs.Proofs.Resolve.Sites

/-!
# The expressions of a resolved shader

Resolving gives every expression its types and qualifiers, with the names that are known where it
stands, and goes on whatever it finds.  The same names are known at the same sites of the result, so its
expressions are those of the shader, each resolved where it stands.

* `Site.resolve`: the expression at a site, resolved with the names known there.
* `Resolve.sites_statement`: the sites of a resolved statement.
* `Shader.sites_resolve`: **the sites of a resolved shader are those of the shader, resolved**.
* `Shader.resolve_expr_of_mem_sites`: so every expression of a resolved shader is resolved.
-/

namespace GlslEs

/-- A site whose expression is resolved with the names known there. -/
def Site.resolve (x : Site) : Site := { x with expr := x.expr.resolve x.names }

namespace Resolve

variable {α : Type} {n : Names}

theorem Settles.after_eq {act : α → Resolve α} {a : α} (h : Settles act a) (n : Names) :
    after (act (run (act a) n).1) n = after (act a) n := by
  unfold after
  rw [h n]

theorem map_resolve (kind : SiteKind) (es : List Expr) :
    (es.map (·.resolve n)).map (⟨kind, n, ·⟩) = (es.map (⟨kind, n, ·⟩)).map Site.resolve := by
  rw [List.map_map, List.map_map]
  rfl

theorem lengthExprs_map (array : Option ArrayLength) :
    lengthExprs (array.map (·.resolve n)) = (lengthExprs array).map (·.resolve n) := by
  cases array with
  | none => rfl
  | some length => cases length <;> rfl

theorem sites_length (kind : SiteKind) (array : Option ArrayLength) :
    (lengthExprs (array.map (·.resolve n))).map (⟨kind, n, ·⟩) =
      ((lengthExprs array).map (⟨kind, n, ·⟩)).map Site.resolve := by
  rw [lengthExprs_map, map_resolve]

/-! ### Declarations -/

theorem sites_members (ms : List Member) :
    memberSites n (ms.map n.member) = (memberSites n ms).map Site.resolve := by
  unfold memberSites
  rw [List.flatMap_map, List.map_flatMap]
  exact congrArg (ms.flatMap ·) (funext fun m => sites_length .outline m.array)

theorem sites_declarators (q : TypeQualifiers) (ty : Ty) (ds : List Declarator) :
    declaratorSites q ty n (run (ds.mapM (declarator q ty)) n).1 =
      (declaratorSites q ty n ds).map Site.resolve := by
  induction ds generalizing n with
  | nil =>
    rw [run_mapM_nil]
    rfl
  | cons d ds ih =>
    have hafter := (settles_declarator q ty d).after_eq n
    have hsites : (run (declarator q ty d) n).1.sites n = (d.sites n).map Site.resolve := by
      rw [run_declarator, behind_fst, Declarator.sites, Declarator.sites, List.map_append]
      refine congrArg₂ (· ++ ·) ?_ (sites_length .length d.array)
      cases h : d.value <;> simp [Names.declarator, h, Site.resolve]
    rw [run_mapM_cons, declaratorSites, declaratorSites, hafter, hsites, List.map_append]
    exact congrArg ((d.sites n).map Site.resolve ++ ·) ih

theorem sites_declaration (d : Declaration) :
    (run (declaration d) n).1.sites n = (d.sites n).map Site.resolve := by
  have hstruct : Settles (Option.mapM structDef) d.struct := .optionMapM fun x _ => settles_structDef x
  have hafter := hstruct.after_eq n
  simp only [declaration, run_bind, run_pure, behind_fst]
  rw [Declaration.sites, Declaration.sites, List.map_append, hafter]
  refine congrArg₂ (· ++ ·) ?_ (sites_declarators d.qualifiers d.ty d.declarators)
  cases d.struct with
  | none => rfl
  | some x =>
    rw [run_optionMapM_some, run_structDef]
    simpa using sites_members x.members

theorem sites_loopStart (start : LoopStart) :
    (run (loopStart start) n).1.sites n = (start.sites n).map Site.resolve := by
  cases start with
  | absent | empty loc | expr loc e => rfl
  | decl loc d => exact sites_declaration d

/-! ### Statements -/

theorem sites_statements {ss : List Stmt}
    (hss : ∀ s ∈ ss, ∀ inner n, (run (statement inner s) n).1.sites inner n = (s.sites inner n).map Site.resolve) :
    Stmt.sitesAll n (run (statements ss) n).1 = (Stmt.sitesAll n ss).map Site.resolve := by
  induction ss generalizing n with
  | nil => rfl
  | cons s ss ih =>
    have hafter := (settles_statement false s).after_eq n
    rw [run_statements_cons, Stmt.sitesAll, Stmt.sitesAll, hafter, hss s List.mem_cons_self, List.map_append]
    exact congrArg (_ ++ ·) (ih fun t ht => hss t (List.mem_cons_of_mem s ht))

theorem inBody_statement (m : Names) (body : Stmt) (inner : Bool) (n : Names) :
    m.inBody (run (statement inner body) n).1 = m.inBody body := by
  rw [Names.inBody, Names.inBody, isBlock_statement]

theorem sites_option (e : Option Expr) :
    (e.map (·.resolve n)).toList.map (⟨.plain, n, ·⟩) =
      (e.toList.map (⟨.plain, n, ·⟩)).map Site.resolve := by
  cases e <;> rfl

/-- The sites of a resolved statement are those of the statement, resolved. -/
theorem sites_statement (s : Stmt) (inner : Bool) (n : Names) :
    (run (statement inner s) n).1.sites inner n = (s.sites inner n).map Site.resolve := by
  induction s generalizing inner n with
  | expr loc e => rfl
  | decl loc d => exact sites_declaration d
  | block loc body ih =>
    have hbody := fun m => sites_statements (n := m) ih
    cases inner with
    | true => exact hbody n
    | false => exact hbody (n.enter .block)
  | ifThen loc condition thenBranch ih =>
    rw [run_ifThen]
    exact congrArg (_ :: ·) (ih true (n.enter .block))
  | ifElse loc condition thenBranch elseBranch iht ihe =>
    have hthen := iht true (n.enter .block)
    have helse := ihe true
      ((after (within .block (statement true thenBranch)) n).enter .block)
    have hafter := ((settles_statement true thenBranch).within .block).after_eq n
    simp only [run_within] at hafter
    simp only [run_ifElse, run_within, Stmt.sites, List.map_cons, List.map_append, hafter, hthen]
    exact congrArg (_ :: _ ++ ·) helse
  | forLoop loc start condition step body ih =>
    have hafter := (settles_loopStart start).after_eq (n.enter .loop)
    have hstart := sites_loopStart (n := n.enter .loop) start
    have hbody := ih true ((after (loopStart start) (n.enter .loop)).inBody body)
    rw [run_forLoop]
    dsimp only
    unfold after at hbody
    rw [Stmt.sites, Stmt.sites, hafter, inBody_statement, hstart, after, hbody, List.map_append,
      List.map_append, List.map_append, List.map_append, List.map_append]
    exact congrArg₂ (fun as bs => _ ++ (as ++ bs ++ _)) (sites_option condition) (sites_option step)
  | whileLoop loc condition body ih | doWhile loc body condition ih =>
    simp only [run_whileLoop, run_doWhile, Stmt.sites, inBody_statement]
    exact congrArg (_ :: ·) (ih true ((n.enter .loop).inBody body))
  | switch loc selector bodyLoc body ih =>
    rw [run_switch]
    exact congrArg (_ :: ·) (sites_statements ih)
  | label loc value | result loc value => cases value <;> rfl
  | jump loc kind | empty loc => rfl

/-! ### Declarations at the top -/

theorem sites_parameters (before : List String) (xs : List Parameter) :
    parameterSites n before (xs.map n.parameter) = (parameterSites n before xs).map Site.resolve := by
  induction xs generalizing before with
  | nil => rfl
  | cons x xs ih =>
    rw [List.map_cons, parameterSites, parameterSites, List.map_append]
    exact congrArg₂ (· ++ ·) (sites_length (.parameter before) x.array) (ih _)

theorem functionNames_function (f : Function) :
    functionNames n (run (function f) n).1 = functionNames n f := by
  have hprototype := settles_prototype f.prototype true n
  simp only [function_eq, run_bind, run_pure, run_within, behind_fst, functionNames, after, hprototype]

theorem sites_topLevel (d : TopLevel) : (run (topLevel d) n).1.sites n = (d.sites n).map Site.resolve := by
  cases d with
  | precision p ty loc | layout q loc => rfl
  | globals d => exact sites_declaration d
  | struct d =>
    simp only [topLevel, run_bind, run_pure, behind_fst, run_structDef]
    exact sites_members d.members
  | block b =>
    simp only [topLevel, run_bind, run_pure, behind_fst, run_interfaceBlock, TopLevel.sites,
      n.map_member_map, List.map_append]
    refine congrArg₂ (· ++ ·) (sites_members b.members) ?_
    split
    · exact sites_length .outline b.array
    · rfl
  | prototype p =>
    simp only [topLevel, run_bind, run_pure, behind_fst, run_prototype, TopLevel.sites, List.flatMap_map,
      List.map_flatMap]
    exact congrArg (p.parameters.flatMap ·) (funext fun x => sites_length .outline x.array)
  | function f =>
    have hnames := functionNames_function (n := n) f
    have hrun : (run (topLevel (.function f)) n).1 = .function (run (function f) n).1 := rfl
    rw [hrun, TopLevel.sites, hnames, TopLevel.sites, List.map_append]
    refine congrArg₂ (· ++ ·) ?_ ?_
    · simp only [function_eq, run_bind, run_pure, run_within, behind_fst, run_prototype]
      exact sites_parameters [] f.prototype.parameters
    · have hbody : (run (function f) n).1.body = (run (statements f.body) (functionNames n f)).1 := by
        simp only [function_eq, run_bind, run_pure, run_within, behind_fst]
        rfl
      rw [hbody]
      exact sites_statements fun s _ => sites_statement s

theorem sites_topLevels (ds : List TopLevel) :
    TopLevel.sitesAll n (run (ds.mapM topLevel) n).1 = (TopLevel.sitesAll n ds).map Site.resolve := by
  induction ds generalizing n with
  | nil =>
    rw [run_mapM_nil]
    rfl
  | cons d ds ih =>
    have hafter := (settles_topLevel d).after_eq n
    rw [run_mapM_cons, TopLevel.sitesAll, TopLevel.sitesAll, hafter, sites_topLevel, List.map_append]
    exact congrArg (_ ++ ·) ih

end Resolve

namespace Shader

/-- **The sites of a resolved shader are those of the shader, resolved.** -/
theorem sites_resolve (s : Shader) (limits : Limits) :
    (s.resolve limits).1.sites limits = (s.sites limits).map Site.resolve :=
  Resolve.sites_topLevels s.declarations

/-- Every expression of a resolved shader is resolved with the names known where it stands. -/
theorem resolve_expr_of_mem_sites {s : Shader} {limits : Limits} {x : Site}
    (h : x ∈ (s.resolve limits).1.sites limits) : x.expr.resolve x.names = x.expr := by
  rw [sites_resolve] at h
  obtain ⟨y, -, rfl⟩ := List.mem_map.mp h
  exact y.expr.resolve_resolve y.names

end Shader

end GlslEs
