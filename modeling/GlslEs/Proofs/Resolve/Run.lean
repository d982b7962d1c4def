import GlslEs.Proofs.Tree
import GlslEs.Resolve.Shader

/-!
# What a resolving step does

A resolving step only adds to what has been found, so all of it shows when it is run where nothing
has been found yet.  `Resolve.run` runs it there; the equations below say what the steps give, and
what steps that follow each other give together.

* `Resolve.Adds`: the step adds its findings to those before it.
* `Resolve.run_bind`: steps one after the other.
* `Resolve.run_within`: a step inside a scope of its own.
* `Resolve.run_arrayed`, `Resolve.run_declarator` and the like: what the parts of a declaration give,
  as functions of the names that are known.
* `Resolve.run_ifThen` and the like: what statements give.
-/

namespace GlslEs

/-- The names once a frame has been opened. -/
def Names.enter (n : Names) (kind : ScopeKind) : Names :=
  { n with symbols := n.symbols.enter kind }

/-- The names once the innermost frame has been closed. -/
def Names.exit (n : Names) : Names := { n with symbols := n.symbols.exit }

/-- The names that are known in the body of a loop: braces share the scope of the loop. -/
def Names.inBody (n : Names) (body : Stmt) : Names := if body.isBlock then n else n.enter .block

/-- The names behind the body of a loop. -/
def Names.outBody (n : Names) (body : Stmt) : Names :=
  { n with symbols := if body.isBlock then n.symbols else n.symbols.exit }

namespace Resolve

variable {α β : Type} {n : Names}

/-- What a step gives where the names `n` are known and nothing has been found. -/
def run (act : Resolve α) (n : Names) : α × Resolution := act ⟨n, []⟩

/-- The names that are known behind a step. -/
def after (act : Resolve α) (n : Names) : Names := (run act n).2.names

/-- Findings in front of those of a result. -/
def behind (fs : List NameFinding) (x : α × Resolution) : α × Resolution :=
  (x.1, ⟨x.2.names, fs ++ x.2.findings⟩)

@[simp] theorem behind_nil (x : α × Resolution) : behind [] x = x := rfl

@[simp] theorem behind_fst (fs : List NameFinding) (x : α × Resolution) : (behind fs x).1 = x.1 := rfl

@[simp] theorem behind_names (fs : List NameFinding) (x : α × Resolution) :
    (behind fs x).2.names = x.2.names := rfl

@[simp] theorem behind_findings (fs : List NameFinding) (x : α × Resolution) :
    (behind fs x).2.findings = fs ++ x.2.findings := rfl

theorem behind_behind (fs gs : List NameFinding) (x : α × Resolution) :
    behind fs (behind gs x) = behind (fs ++ gs) x := by
  simp [behind]

/-- A step adds its findings to those before it and does not look at them. -/
class Adds (act : Resolve α) : Prop where
  eq : ∀ n fs, act ⟨n, fs⟩ = behind fs (run act n)

theorem adds_eq (act : Resolve α) [h : Adds act] (n : Names) (fs : List NameFinding) :
    act ⟨n, fs⟩ = behind fs (run act n) := h.eq n fs

instance adds_pure (a : α) : Adds (pure a : Resolve α) where
  eq n fs := by
    show (a, (⟨n, fs⟩ : Resolution)) = (a, ⟨n, fs ++ []⟩)
    rw [List.append_nil]

theorem bind_eq (act : Resolve α) (f : α → Resolve β) (n : Names) (fs : List NameFinding) :
    (act >>= f) ⟨n, fs⟩ = f (act ⟨n, fs⟩).1 (act ⟨n, fs⟩).2 := rfl

theorem run_bind (act : Resolve α) (f : α → Resolve β) [∀ a, Adds (f a)] (n : Names) :
    run (act >>= f) n =
      behind (run act n).2.findings (run (f (run act n).1) (run act n).2.names) :=
  adds_eq (f (run act n).1) _ _

instance adds_bind (act : Resolve α) (f : α → Resolve β) [Adds act] [∀ a, Adds (f a)] :
    Adds (act >>= f) where
  eq n fs := by
    rw [run_bind, bind_eq, adds_eq act n fs, behind_behind]
    exact adds_eq (f (run act n).1) _ _

theorem run_pure (a : α) (n : Names) : run (pure a : Resolve α) n = (a, ⟨n, []⟩) := rfl

instance adds_map (f : α → β) (act : Resolve α) [Adds act] : Adds (f <$> act) := by
  rw [← bind_pure_comp]
  infer_instance

theorem run_map (f : α → β) (act : Resolve α) (n : Names) :
    run (f <$> act) n = (f (run act n).1, (run act n).2) := rfl

/-! ### Single steps -/

instance adds_names : Adds names where
  eq n fs := by
    show (n, (⟨n, fs⟩ : Resolution)) = (n, ⟨n, fs ++ []⟩)
    rw [List.append_nil]

theorem run_names (n : Names) : run names n = (n, ⟨n, []⟩) := rfl

theorem run_names_bind (f : Names → Resolve α) (n : Names) : run (names >>= f) n = run (f n) n := rfl

instance adds_record (findings : List NameFinding) : Adds (record findings) where
  eq _ _ := rfl

instance adds_report (problem : NameProblem) (loc : Location) : Adds (report problem loc) :=
  inferInstanceAs (Adds (record _))

theorem run_report (problem : NameProblem) (loc : Location) (n : Names) :
    run (report problem loc) n = ((), ⟨n, [⟨problem, loc⟩]⟩) := rfl

instance adds_updateNames (f : Names → Names) : Adds (updateNames f) where
  eq n fs := by
    show ((), (⟨f n, fs⟩ : Resolution)) = ((), ⟨f n, fs ++ []⟩)
    rw [List.append_nil]

theorem run_updateNames (f : Names → Names) (n : Names) :
    run (updateNames f) n = ((), ⟨f n, []⟩) := rfl

instance adds_updateSymbols (f : SymbolTable → SymbolTable) : Adds (updateSymbols f) :=
  inferInstanceAs (Adds (updateNames _))

instance adds_within (kind : ScopeKind) (act : Resolve α) [Adds act] : Adds (within kind act) := by
  unfold within
  infer_instance

/-- A scope of its own: the step starts with a new frame, and the frame is dropped behind it. -/
theorem run_within (kind : ScopeKind) (act : Resolve α) (n : Names) :
    run (within kind act) n =
      ((run act (n.enter kind)).1,
        ⟨(run act (n.enter kind)).2.names.exit, (run act (n.enter kind)).2.findings⟩) := rfl

instance adds_declare (s : Symbol) : Adds (declare s) := by
  unfold declare
  refine @adds_bind _ _ _ _ _ fun m => ?_
  repeat' split
  all_goals infer_instance

instance adds_expr (e : Expr) : Adds (expr e) := by
  unfold expr
  infer_instance

theorem run_expr (e : Expr) (n : Names) : run (expr e) n = (e.resolve n, ⟨n, e.nameFindings n⟩) := rfl

instance adds_arrayLength (length : ArrayLength) (value : Option Ty) :
    Adds (arrayLength length value) := by
  unfold arrayLength
  split <;> infer_instance

instance adds_arrayed (ty : Ty) (array : Option ArrayLength) (value : Option Ty) :
    Adds (arrayed ty array value) := by
  unfold arrayed
  split <;> infer_instance

instance adds_declareFunction (p : Prototype) (defining : Bool) :
    Adds (declareFunction p defining) := by
  unfold declareFunction
  refine @adds_bind _ _ _ _ _ fun m => ?_
  repeat' split
  all_goals infer_instance

/-! ### Lists -/

instance adds_mapM {act : α → Resolve β} [∀ a, Adds (act a)] (xs : List α) : Adds (xs.mapM act) := by
  induction xs with
  | nil =>
    rw [List.mapM_nil]
    infer_instance
  | cons x xs ih =>
    rw [List.mapM_cons]
    infer_instance

instance adds_optionMapM {act : α → Resolve β} [∀ a, Adds (act a)] (x : Option α) :
    Adds (x.mapM act) := by
  cases x with
  | none => exact adds_pure none
  | some a => exact adds_map some (act a)

instance adds_forIn {f : α → PUnit → Resolve (ForInStep PUnit)} [∀ a u, Adds (f a u)] (xs : List α) :
    Adds (forIn xs PUnit.unit f) := by
  induction xs with
  | nil =>
    rw [List.forIn_nil]
    infer_instance
  | cons x xs ih =>
    rw [List.forIn_cons]
    refine @adds_bind _ _ _ _ _ fun r => ?_
    cases r with
    | done r => exact adds_pure r
    | yield r => exact ih

theorem run_mapM_nil (act : α → Resolve β) (n : Names) :
    run (([] : List α).mapM act) n = ([], ⟨n, []⟩) := by
  rw [List.mapM_nil]
  rfl

/-- Items one after the other. -/
theorem run_mapM_cons (act : α → Resolve β) [∀ a, Adds (act a)] (x : α) (xs : List α) (n : Names) :
    run ((x :: xs).mapM act) n =
      ((run (act x) n).1 :: (run (xs.mapM act) (run (act x) n).2.names).1,
        ⟨(run (xs.mapM act) (run (act x) n).2.names).2.names,
          (run (act x) n).2.findings ++ (run (xs.mapM act) (run (act x) n).2.names).2.findings⟩) := by
  rw [List.mapM_cons, run_bind, run_bind, run_pure]
  simp [behind]

theorem run_optionMapM_none (act : α → Resolve β) (n : Names) :
    run ((none : Option α).mapM act) n = (none, ⟨n, []⟩) := rfl

theorem run_optionMapM_some (act : α → Resolve β) (x : α) (n : Names) :
    run ((some x).mapM act) n = (some (run (act x) n).1, (run (act x) n).2) := rfl

end Resolve

/-! ### Array lengths -/

namespace ArrayLength

/-- An array length with types and qualifiers. -/
def resolve (n : Names) : ArrayLength → ArrayLength
  | .unsized => .unsized
  | .sized e => .sized (e.resolve n)

/-- The names in an array length that are not declared. -/
def nameFindings (n : Names) : ArrayLength → List NameFinding
  | .unsized => []
  | .sized e => e.nameFindings n

/-- How many items an array with a resolved length has. -/
def size? (n : Names) (value : Option Ty) : ArrayLength → Option Nat
  | .unsized => value.bind (·.array)
  | .sized e => ((e.evalInt? n.symbols.constant?).filter (0 < ·)).map Int.toNat

end ArrayLength

namespace Names

/-- The type that an optional array length makes of a type. -/
def arrayedType (n : Names) (ty : Ty) (value : Option Ty) : Option ArrayLength → Ty
  | none => ty
  | some length => (((length.resolve n).size? n value).map fun k => ty.withArray (some k)).getD .error

/-- The names in an optional array length that are not declared. -/
def lengthFindings (n : Names) (array : Option ArrayLength) : List NameFinding :=
  (array.map (·.nameFindings n)).getD []

/-- A member with its type. -/
def member (n : Names) (m : Member) : Member :=
  { m with array := m.array.map (·.resolve n), ty := n.arrayedType m.ty none m.array }

/-- A parameter with its type. -/
def parameter (n : Names) (x : Parameter) : Parameter :=
  { x with array := x.array.map (·.resolve n), ty := n.arrayedType x.ty none x.array }

/-- A variable of a declaration with its type. -/
def declarator (n : Names) (ty : Ty) (d : Declarator) : Declarator :=
  { d with
    value := d.value.map (·.resolve n)
    array := d.array.map (·.resolve n)
    ty := n.arrayedType ty ((d.value.map (·.resolve n)).map Expr.ty) d.array }

/-- What a declaration with the given qualifiers declares a variable as; the variable has its type. -/
def symbolOf (n : Names) (q : TypeQualifiers) (d : Declarator) : Symbol :=
  let constant := if q.storage = some .const then d.value.bind (·.eval? n.symbols.constant?) else none
  ⟨d.name, .variable_, d.ty, q.toSet, constant, d.loc⟩

/-- The names in a variable's value and array length that are not declared. -/
def declaratorFindings (n : Names) (d : Declarator) : List NameFinding :=
  (d.value.map (·.nameFindings n)).getD [] ++ n.lengthFindings d.array

end Names

namespace Resolve

variable {n : Names}

theorem run_arrayed (ty : Ty) (array : Option ArrayLength) (value : Option Ty) (n : Names) :
    run (arrayed ty array value) n =
      ((array.map (·.resolve n), n.arrayedType ty value array), ⟨n, n.lengthFindings array⟩) := by
  cases array with
  | none => rfl
  | some length =>
    cases length with
    | unsized => rfl
    | sized e =>
      show (_, (⟨n, [] ++ e.nameFindings n⟩ : Resolution)) = _
      rw [List.nil_append]
      rfl

/-- Items that are resolved one after the other and change no names. -/
theorem run_mapM_of_same {α β : Type} {act : α → Resolve β} [∀ a, Adds (act a)] {f : α → β}
    {g : α → List NameFinding} (h : ∀ x, run (act x) n = (f x, ⟨n, g x⟩)) (xs : List α) :
    run (xs.mapM act) n = (xs.map f, ⟨n, xs.flatMap g⟩) := by
  induction xs with
  | nil => exact run_mapM_nil act n
  | cons x xs ih =>
    rw [run_mapM_cons, h, ih]
    rfl

theorem run_members (ms : List Member) (n : Names) :
    run (members ms) n =
      (ms.map n.member, ⟨n, ms.flatMap fun m => n.lengthFindings m.array⟩) := by
  refine run_mapM_of_same (fun m => ?_) ms
  rw [run_bind, run_arrayed]
  simp [behind, run_pure, Names.member]

instance adds_members (ms : List Member) : Adds (members ms) := by
  unfold members
  infer_instance

instance adds_ite {α : Type} {c : Prop} [Decidable c] {x y : Resolve α} [Adds x] [Adds y] :
    Adds (if c then x else y) := by
  split <;> infer_instance

instance adds_structDef (d : StructDef) : Adds (structDef d) := by
  unfold structDef
  dsimp only
  infer_instance

/-- What the definition of a structure gives: it is entered, also if it is the second one. -/
theorem run_structDef (d : StructDef) (n : Names) :
    run (structDef d) n =
      ({ d with members := d.members.map n.member },
        ⟨{ n with structs := (d.name, memberTypes (d.members.map n.member)) :: n.structs },
          (d.members.flatMap fun m => n.lengthFindings m.array) ++
            if (n.structs.lookup d.name).isSome then [⟨.structTwice d.name, d.loc⟩] else []⟩) := by
  unfold structDef
  dsimp only
  rw [run_bind, run_members, run_bind, run_names]
  split <;> simp [behind, run_bind, run_map, run_report, run_updateNames]

instance adds_declarator (q : TypeQualifiers) (ty : Ty) (d : Declarator) :
    Adds (declarator q ty d) := by
  unfold declarator
  infer_instance

/-- What a variable of a declaration gives. -/
theorem run_declarator (q : TypeQualifiers) (ty : Ty) (d : Declarator) (n : Names) :
    run (declarator q ty d) n =
      behind (n.declaratorFindings d)
        (n.declarator ty d, (run (declare (n.symbolOf q (n.declarator ty d))) n).2) := by
  unfold declarator
  cases hvalue : d.value with
  | none =>
    rw [run_bind, run_optionMapM_none, run_bind, run_arrayed, run_bind, run_names, run_bind]
    simp [behind, run_pure, Names.declaratorFindings, Names.declarator, Names.symbolOf, hvalue]
  | some e =>
    rw [run_bind, run_optionMapM_some, run_expr, run_bind, run_arrayed, run_bind, run_names, run_bind]
    simp [behind, run_pure, Names.declaratorFindings, Names.declarator, Names.symbolOf, hvalue]

instance adds_declaration (d : Declaration) : Adds (declaration d) := by
  unfold declaration
  infer_instance

instance adds_interfaceBlock (b : InterfaceBlock) : Adds (interfaceBlock b) := by
  unfold interfaceBlock
  refine @adds_bind _ _ _ _ _ fun ms => @adds_bind _ _ _ _ _ fun _ => ?_
  dsimp only
  split <;> infer_instance

instance adds_prototype (p : Prototype) (defining : Bool) : Adds (prototype p defining) := by
  unfold prototype
  infer_instance

theorem run_parameters (xs : List Parameter) (n : Names) :
    run (xs.mapM fun x : Parameter => do
      let (array, ty) ← arrayed x.ty x.array none
      return { x with array, ty }) n =
      (xs.map n.parameter, ⟨n, xs.flatMap fun x => n.lengthFindings x.array⟩) := by
  refine run_mapM_of_same (fun x => ?_) xs
  rw [run_bind, run_arrayed]
  simp [behind, run_pure, Names.parameter]

theorem run_prototype (p : Prototype) (defining : Bool) (n : Names) :
    run (prototype p defining) n =
      behind (p.parameters.flatMap fun x => n.lengthFindings x.array)
        ({ p with parameters := p.parameters.map n.parameter },
          (run (declareFunction { p with parameters := p.parameters.map n.parameter } defining)
            n).2) := by
  unfold prototype
  rw [run_bind, run_parameters, run_bind]
  simp [behind, run_pure]

/-! ### Statements -/

instance adds_loopStart (start : LoopStart) : Adds (loopStart start) := by
  cases start <;> unfold loopStart <;> infer_instance

instance adds_loopBody (body : Stmt) (act : Resolve Stmt) [Adds act] : Adds (loopBody body act) := by
  unfold loopBody
  infer_instance

theorem adds_statements_of {ss : List Stmt} (h : ∀ s ∈ ss, Adds (statement false s)) :
    Adds (statements ss) := by
  induction ss with
  | nil => exact adds_pure []
  | cons s ss ih =>
    have := h s List.mem_cons_self
    have := ih fun x hx => h x (List.mem_cons_of_mem _ hx)
    unfold statements
    infer_instance

instance adds_statement (inner : Bool) (s : Stmt) : Adds (statement inner s) := by
  induction s generalizing inner with
  | block loc body ih | switch loc selector bodyLoc body ih =>
    have : Adds (statements body) := adds_statements_of fun s hs => ih s hs false
    unfold statement
    infer_instance
  | ifThen loc condition thenBranch ih =>
    have := ih true
    unfold statement
    infer_instance
  | ifElse loc condition thenBranch elseBranch iht ihe =>
    have := iht true
    have := ihe true
    unfold statement
    infer_instance
  | forLoop loc start condition step body ih | whileLoop loc condition body ih
  | doWhile loc body condition ih =>
    have := ih true
    unfold statement
    infer_instance
  | _ =>
    unfold statement
    infer_instance

instance adds_statements (ss : List Stmt) : Adds (statements ss) :=
  adds_statements_of fun s _ => adds_statement false s

theorem run_statements_nil (n : Names) : run (statements []) n = ([], ⟨n, []⟩) := rfl

/-- Statements one after the other. -/
theorem run_statements_cons (s : Stmt) (ss : List Stmt) (n : Names) :
    run (statements (s :: ss)) n =
      ((run (statement false s) n).1 :: (run (statements ss) (run (statement false s) n).2.names).1,
        ⟨(run (statements ss) (run (statement false s) n).2.names).2.names,
          (run (statement false s) n).2.findings ++
            (run (statements ss) (run (statement false s) n).2.names).2.findings⟩) := by
  rw [statements, run_bind]
  simp [behind, run_map]

section Statements

variable {inner : Bool} {loc bodyLoc : Location} {condition selector : Expr} {value step : Option Expr}
  {start : LoopStart} {thenBranch elseBranch body : Stmt} {ss : List Stmt}

theorem run_option : run (value.mapM expr) n =
    (value.map (·.resolve n), ⟨n, (value.map (·.nameFindings n)).getD []⟩) := by
  cases value <;> rfl

theorem run_exprStmt {e : Expr} :
    run (statement inner (.expr loc e)) n = (.expr loc (e.resolve n), ⟨n, e.nameFindings n⟩) := rfl

theorem run_result : run (statement inner (.result loc value)) n =
    (.result loc (value.map (·.resolve n)), ⟨n, (value.map (·.nameFindings n)).getD []⟩) := by
  cases value <;> rfl

theorem run_loopBody : run (loopBody body (statement true body)) n =
    let r := run (statement true body) (n.inBody body)
    (r.1, ⟨r.2.names.outBody body, r.2.findings⟩) := by
  unfold loopBody Names.inBody Names.outBody
  split <;> rfl

theorem run_ifThen : run (statement inner (.ifThen loc condition thenBranch)) n =
    let r := run (within .block (statement true thenBranch)) n
    (.ifThen loc (condition.resolve n) r.1, ⟨r.2.names, condition.nameFindings n ++ r.2.findings⟩) :=
  run_bind (expr condition) _ n

theorem run_ifElse : run (statement inner (.ifElse loc condition thenBranch elseBranch)) n =
    let r := run (within .block (statement true thenBranch)) n
    let r' := run (within .block (statement true elseBranch)) r.2.names
    (.ifElse loc (condition.resolve n) r.1 r'.1,
      ⟨r'.2.names, condition.nameFindings n ++ (r.2.findings ++ r'.2.findings)⟩) := by
  simp only [statement, run_bind, run_map, run_expr, behind]

theorem run_forLoop : run (statement inner (.forLoop loc start value step body)) n =
    let h := run (loopStart start) (n.enter .loop)
    let m := h.2.names
    let r := run (statement true body) (m.inBody body)
    (.forLoop loc h.1 (value.map (·.resolve m)) (step.map (·.resolve m)) r.1,
      ⟨(r.2.names.outBody body).exit, h.2.findings ++ ((value.map (·.nameFindings m)).getD [] ++
        ((step.map (·.nameFindings m)).getD [] ++ r.2.findings))⟩) := by
  simp only [statement, run_bind, run_map, run_within, run_option, run_loopBody, behind]

theorem run_whileLoop : run (statement inner (.whileLoop loc condition body)) n =
    let m := n.enter .loop
    let r := run (statement true body) (m.inBody body)
    (.whileLoop loc (condition.resolve m) r.1,
      ⟨(r.2.names.outBody body).exit, condition.nameFindings m ++ r.2.findings⟩) := by
  simp only [statement, run_bind, run_map, run_within, run_expr, run_loopBody, behind]

theorem run_doWhile : run (statement inner (.doWhile loc body condition)) n =
    let m := n.enter .loop
    let r := run (statement true body) (m.inBody body)
    (.doWhile loc r.1 (condition.resolve m),
      ⟨(r.2.names.outBody body).exit, condition.nameFindings m ++ r.2.findings⟩) := by
  simp only [statement, run_bind, run_pure, run_within, run_expr, run_loopBody, behind, List.append_nil]

theorem run_switch : run (statement inner (.switch loc selector bodyLoc ss)) n =
    let r := run (statements ss) (n.enter .block)
    (.switch loc (selector.resolve n) bodyLoc r.1, ⟨r.2.names.exit, selector.nameFindings n ++ r.2.findings⟩) :=
  run_bind (expr selector) _ n

end Statements

/-! ### Functions and declarations at the top -/

/-- Declares symbols one after the other. -/
def declareAll : List Symbol → Resolve PUnit
  | [] => return ⟨⟩
  | s :: ss => do
    declare s
    declareAll ss

instance adds_declareAll (ss : List Symbol) : Adds (declareAll ss) := by
  induction ss with
  | nil => exact adds_pure _
  | cons s ss ih =>
    unfold declareAll
    infer_instance

theorem forIn_declare (f : α → Symbol) (xs : List α) :
    (forIn xs PUnit.unit fun x _ => do
      declare (f x)
      pure (ForInStep.yield PUnit.unit)) = declareAll (xs.map f) := by
  induction xs with
  | nil => rfl
  | cons x xs ih =>
    rw [List.forIn_cons, List.map_cons, declareAll, bind_assoc]
    simp only [pure_bind, ih]

theorem forIn_declare? (f : α → Option Symbol) (xs : List α) :
    (forIn xs PUnit.unit fun x _ =>
      match f x with
      | some s => do
        declare s
        pure (ForInStep.yield PUnit.unit)
      | none => pure (ForInStep.yield PUnit.unit)) = declareAll (xs.filterMap f) := by
  induction xs with
  | nil => rfl
  | cons x xs ih =>
    rw [List.forIn_cons]
    cases hx : f x with
    | none => simp only [List.filterMap_cons_none hx, pure_bind, ih]
    | some s => simp only [List.filterMap_cons_some hx, declareAll, bind_assoc, pure_bind, ih]

end Resolve

/-- What a function declares a parameter as, if it has a name. -/
def Parameter.symbol? (x : Parameter) : Option Symbol :=
  x.name.map fun name => ⟨name, .parameter, x.ty, .empty, none, x.loc⟩

/-- What a block without a name of its own declares its members as. -/
def Member.symbol (q : QualifierSet) (m : Member) : Symbol :=
  ⟨m.name, .variable_, m.ty, q, none, m.loc⟩

namespace Resolve

/-- A function: its parameters are declared in the scope of its body. -/
theorem function_eq (f : Function) :
    function f = (do
      let p ← prototype f.prototype true
      within .function do
        declareAll (p.parameters.filterMap Parameter.symbol?)
        return { f with prototype := p, body := ← statements f.body }) := by
  refine bind_congr fun p => congrArg (within .function) (congrArg (· >>= _) ?_)
  rw [← forIn_declare?]
  refine congrArg (forIn p.parameters PUnit.unit) ?_
  funext x _
  unfold Parameter.symbol?
  cases x.name <;> rfl

/-- A block: its name, or the names of its members, are declared once its members are known. -/
theorem interfaceBlock_eq (b : InterfaceBlock) :
    interfaceBlock b = (do
      let ms ← members b.members
      updateNames fun n => { n with structs := (b.name, memberTypes ms) :: n.structs }
      match b.instanceName with
      | some name =>
        let (array, ty) ← arrayed (.struct b.name) b.array none
        declare ⟨name, .variable_, ty, b.qualifiers.toSet, none, b.loc⟩
        return { b with members := ms, array }
      | none =>
        declareAll (ms.map (Member.symbol b.qualifiers.toSet))
        return { b with members := ms }) := by
  simp only [← forIn_declare]
  rfl

instance adds_function (f : Function) : Adds (function f) := by
  rw [function_eq]
  infer_instance

instance adds_topLevel (t : TopLevel) : Adds (topLevel t) := by
  cases t <;> unfold topLevel <;> infer_instance

end Resolve

namespace Shader

/-- What resolving the declarations of a shader gives. -/
def resolution (s : Shader) (limits : Limits) : List TopLevel × Resolution :=
  Resolve.run (s.declarations.mapM Resolve.topLevel) (.ofBuiltins s.version limits)

theorem resolve_eq (s : Shader) (limits : Limits) :
    s.resolve limits =
      ({ s with declarations := (s.resolution limits).1 },
        Diagnostic.sort ((s.resolution limits).2.findings.map NameFinding.report)) := rfl

end Shader

end GlslEs
