import GlslEs.Check.Shader
import GlslEs.Proofs.Tree

/-!
# Where expressions are checked

Checking a shader comes down to checking its expressions, each as a whole and with what is known where
it stands.

* `Shader.checkSites`: the expressions that are checked as a whole, in order, with what is known there.
* `Shader.findings_of_mem_checkSites`: **what is found at a site is found in the shader**.
-/

namespace GlslEs

/-- An expression that is checked as a whole, with what is known where it stands. -/
structure CheckSite where
  context : Context
  expr : Expr

/-- What is found at a site. -/
def CheckSite.findings (s : CheckSite) : List Finding := s.context.checkWhole s.expr

namespace TopLevel

/-- The expressions in the body of a function or in the values of global variables. -/
def exprs : TopLevel → List Expr
  | .globals d => d.values
  | .function f => Stmt.exprsAll f.body
  | _ => []

end TopLevel

namespace Context

/-- The site of an expression that may be missing. -/
def optionSites (c : Context) (e : Option Expr) : List CheckSite := e.toList.map (⟨c, ·⟩)

/-- The sites of the variables of a declaration. -/
def declaratorSites (c : Context) (q : TypeQualifiers) : List Declarator → List CheckSite
  | [] => []
  | x :: xs => c.optionSites x.value ++ (c.afterDeclarator q x).declaratorSites q xs

/-- The sites of a declaration. -/
def declarationSites (c : Context) (d : Declaration) : List CheckSite :=
  c.declaratorSites d.qualifiers d.declarators

/-- The sites of the first part of a loop head. -/
def startSites (c : Context) : LoopStart → List CheckSite
  | .absent | .empty _ => []
  | .expr _ e => [⟨c, e⟩]
  | .decl _ d => c.declarationSites d

mutual

/-- The sites of a statement; `inner` says that braces open no scope of their own. -/
def stmtSites (c : Context) (inner : Bool) : Stmt → List CheckSite
  | .expr _ e => [⟨c, e⟩]
  | .decl _ d => c.declarationSites d
  | .block _ body => stmtsSites (if inner then c else c.enter) body
  | .ifThen _ condition thenBranch => ⟨c, condition⟩ :: stmtSites c.enter true thenBranch
  | .ifElse _ condition thenBranch elseBranch =>
    ⟨c, condition⟩ :: (stmtSites c.enter true thenBranch ++ stmtSites c.enter true elseBranch)
  | .forLoop _ start condition step body =>
    let head := c.enter.afterStart start
    c.enter.startSites start ++ head.optionSites condition ++ head.optionSites step ++
      stmtSites (head.inLoop (loopCounter c.functions start condition step body)) true body
  | .whileLoop _ condition body => ⟨c.enter, condition⟩ :: stmtSites c.enter false body
  | .doWhile _ body condition => ⟨c.enter, condition⟩ :: stmtSites c.enter false body
  | .switch _ selector _ body => ⟨c, selector⟩ :: stmtsSites c.enter body
  | .label _ value => c.optionSites value
  | .result _ value => c.optionSites value
  | .jump .. => []
  | .empty _ => []

/-- The sites of statements one after the other. -/
def stmtsSites (c : Context) : List Stmt → List CheckSite
  | [] => []
  | s :: ss => stmtSites c false s ++ stmtsSites (c.after s) ss

end

/-- The context after the parameters of a function. -/
def afterParameters (c : Context) (xs : List Parameter) : Context :=
  xs.foldl (fun c x => (x.name.map (c.declare · none)).getD c) c

/-- The context at the beginning of a function's body. -/
def inside (c : Context) (p : Prototype) : Context :=
  afterParameters { c.enter with result := p.result } p.parameters

theorem checkFunction_eq (c : Context) (f : Function) :
    c.checkFunction f = c.checkPrototype f.prototype ++ (c.inside f.prototype).checkStmts f.body := rfl

/-- The sites of a declaration at the top of a shader. -/
def topLevelSites (c : Context) : TopLevel → List CheckSite
  | .globals d => c.declarationSites d
  | .function f => (c.inside f.prototype).stmtsSites f.body
  | _ => []

/-- The sites of declarations one after the other. -/
def topLevelsSites (c : Context) : List TopLevel → List CheckSite
  | [] => []
  | d :: ds => c.topLevelSites d ++ topLevelsSites (c.afterTopLevel d) ds

/-! ### What is found at the sites -/

/-- What is found at each site is among the given findings. -/
def FoundIn (sites : List CheckSite) (fs : List Finding) : Prop :=
  ∀ s ∈ sites, s.findings ⊆ fs

namespace FoundIn

variable {as bs : List CheckSite} {fs gs : List Finding}

theorem nil (fs : List Finding) : FoundIn [] fs := fun _ hs => absurd hs List.not_mem_nil

theorem mono (h : FoundIn as fs) (hfs : fs ⊆ gs) : FoundIn as gs :=
  fun s hs => List.Subset.trans (h s hs) hfs

theorem append (ha : FoundIn as fs) (hb : FoundIn bs fs) : FoundIn (as ++ bs) fs := by
  intro s hs
  rcases List.mem_append.mp hs with hs | hs
  · exact ha s hs
  · exact hb s hs

theorem cons {s : CheckSite} (hs : s.findings ⊆ fs) (hb : FoundIn bs fs) : FoundIn (s :: bs) fs := by
  intro t ht
  rcases List.mem_cons.mp ht with rfl | ht
  · exact hs
  · exact hb t ht

end FoundIn

theorem foundIn_optionSites {c : Context} {e : Option Expr} {fs : List Finding}
    (h : ∀ x ∈ e, c.checkWhole x ⊆ fs) : FoundIn (c.optionSites e) fs := by
  cases e with
  | none => exact .nil fs
  | some x => exact .cons (h x rfl) (.nil fs)

theorem foundIn_declaratorSites (c : Context) (q : TypeQualifiers) (isGlobal : Bool)
    (xs : List Declarator) :
    FoundIn (c.declaratorSites q xs) (c.checkDeclarators q isGlobal xs) := by
  induction xs generalizing c with
  | nil => exact .nil _
  | cons x xs ih =>
    rw [declaratorSites, checkDeclarators]
    refine .append (foundIn_optionSites fun e he => ?_)
      ((ih _).mono (List.subset_append_right _ _))
    rw [checkDeclarator, he]
    intro f hf
    simp only [checkStartValue, List.mem_append, hf, true_or, or_true]

theorem foundIn_declarationSites (c : Context) (isGlobal : Bool) (d : Declaration) :
    FoundIn (c.declarationSites d) (c.checkDeclaration isGlobal d) :=
  (c.foundIn_declaratorSites d.qualifiers isGlobal d.declarators).mono (List.subset_append_right _ _)

theorem foundIn_startSites (c : Context) (start : LoopStart) :
    FoundIn (c.startSites start) (c.checkStart start) := by
  cases start with
  | expr loc e => exact .cons (List.Subset.refl _) (.nil _)
  | decl loc d => exact c.foundIn_declarationSites false d
  | _ => exact .nil _

theorem foundIn_stmtsSites_of {ss : List Stmt}
    (h : ∀ s ∈ ss, ∀ c inner, FoundIn (stmtSites c inner s) (c.checkStmt inner s)) (c : Context) :
    FoundIn (c.stmtsSites ss) (c.checkStmts ss) := by
  induction ss generalizing c with
  | nil => exact .nil _
  | cons s ss ih =>
    rw [stmtsSites, checkStmts]
    exact ((h s List.mem_cons_self c false).mono (List.subset_append_left _ _)).append
      ((ih (fun t ht => h t (List.mem_cons_of_mem s ht)) _).mono (List.subset_append_right _ _))

theorem checkWhole_subset_checkTest (c : Context) (place : ConditionPlace) (e : Expr) :
    c.checkWhole e ⊆ c.checkTest place e := List.subset_append_left _ _

/-- What is found at the sites of a statement is found in the statement. -/
theorem foundIn_stmtSites (s : Stmt) (c : Context) (inner : Bool) :
    FoundIn (c.stmtSites inner s) (c.checkStmt inner s) := by
  induction s generalizing c inner with
  | expr loc e => exact .cons (List.Subset.refl _) (.nil _)
  | decl loc d => exact c.foundIn_declarationSites false d
  | block loc body ih => exact foundIn_stmtsSites_of ih _
  | ifThen loc condition thenBranch hthen =>
    rw [stmtSites, checkStmt]
    exact .cons (List.Subset.trans (checkWhole_subset_checkTest ..) (List.subset_append_left _ _))
      ((hthen c.enter true).mono (List.subset_append_right _ _))
  | ifElse loc condition thenBranch elseBranch hthen helse =>
    rw [stmtSites, checkStmt, List.append_assoc]
    refine .cons (List.Subset.trans (checkWhole_subset_checkTest ..) (List.subset_append_left _ _)) ?_
    refine FoundIn.mono (.append ?_ ?_) (List.subset_append_right _ _)
    · exact (hthen c.enter true).mono (List.subset_append_left _ _)
    · exact (helse c.enter true).mono (List.subset_append_right _ _)
  | forLoop loc start condition step body hbody =>
    rw [stmtSites, checkStmt]
    refine .append (.append (.append ?_ ?_) ?_) ((hbody _ true).mono (List.subset_append_right _ _))
    · refine (c.enter.foundIn_startSites start).mono fun f hf => ?_
      simp only [List.mem_append, hf, true_or]
    · refine foundIn_optionSites fun e he f hf => ?_
      simp only [Option.mem_def.mp he, checkTest, Option.map_some, Option.getD_some, List.mem_append, hf, true_or,
        or_true]
    · refine foundIn_optionSites fun e he f hf => ?_
      simp only [Option.mem_def.mp he, Option.map_some, Option.getD_some, List.mem_append, hf, true_or, or_true]
  | whileLoop loc condition body hbody | doWhile loc body condition hbody =>
    rw [stmtSites, checkStmt, List.append_assoc]
    exact .cons (List.Subset.trans (checkWhole_subset_checkTest ..) (List.subset_append_left _ _))
      ((hbody c.enter false).mono fun f hf => by simp only [List.mem_append, hf, or_true])
  | switch loc selector bodyLoc body ih =>
    rw [stmtSites, checkStmt]
    refine .cons ?_ ((foundIn_stmtsSites_of ih c.enter).mono (List.subset_append_right _ _))
    intro f hf
    simp only [checkSelector, List.mem_append, show f ∈ c.checkWhole selector from hf, true_or, or_true]
  | label loc value | result loc value =>
    refine foundIn_optionSites fun e he => ?_
    rw [he]
    exact List.subset_append_left _ _
  | _ => exact .nil _

theorem foundIn_topLevelSites (c : Context) (d : TopLevel) :
    FoundIn (c.topLevelSites d) (c.checkTopLevel d) := by
  cases d with
  | globals d => exact c.foundIn_declarationSites true d
  | function f =>
    refine (foundIn_stmtsSites_of (fun s _ => foundIn_stmtSites s) _).mono ?_
    rw [checkTopLevel, checkFunction_eq]
    exact List.subset_append_right _ _
  | _ => exact .nil _

theorem foundIn_topLevelsSites (c : Context) (ds : List TopLevel) :
    FoundIn (c.topLevelsSites ds) (c.checkTopLevels ds) := by
  induction ds generalizing c with
  | nil => exact .nil _
  | cons d ds ih =>
    exact ((c.foundIn_topLevelSites d).mono (List.subset_append_left _ _)).append
      ((ih _).mono (List.subset_append_right _ _))

end Context

namespace Shader

variable {stage : Stage} {limits : Limits} {site : CheckSite}

/-- The expressions of a shader that are checked as a whole, in order, with what is known where they
stand. -/
def checkSites (s : Shader) (stage : Stage) (limits : Limits) : List CheckSite :=
  (Context.ofShader s stage limits).topLevelsSites s.declarations

/-- What is found at a site is found in the shader. -/
theorem findings_of_mem_checkSites {s : Shader} (h : site ∈ s.checkSites stage limits) :
    site.findings ⊆ s.findings stage limits := by
  intro f hf
  have := Context.foundIn_topLevelsSites _ _ site h hf
  simp only [findings, List.mem_append, this, true_or, or_true]

end Shader

end GlslEs
