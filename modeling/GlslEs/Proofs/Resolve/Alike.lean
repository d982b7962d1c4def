import GlslEs.Proofs.Resolve.Names
import GlslEs.Proofs.Resolve.Run

/-!
# Places where the same names are known

Two places of a shader may have their scopes cut differently and still know the same names.
`Names.Alike taken n m` says so of two local places; only the names in `taken` may be declared in
the innermost scope of `m` and not in that of `n`.  What is resolved without a finding at `n` is then
resolved without one at `m`, unless it declares one of the names in `taken` itself.

* `Names.Agree.resolve`: expressions depend on nothing but what is known of names.
* `Resolve.Local`: a step inside a function changes nothing but the innermost scope.
* `Resolve.Relate`: what one step does at one place, another does at another place.
* `Resolve.relate_within`: scopes of their own may be opened on both sides.
* `Resolve.relate_declaration`: declarations.
-/

namespace GlslEs

/-! ### Symbol tables -/

namespace SymbolTable

variable (t : SymbolTable) (s : Symbol) (kind : ScopeKind) (name : String)

@[simp] theorem exit_enter : (t.enter kind).exit = t := rfl

@[simp] theorem current_enter : (t.enter kind).current = [] := rfl

@[simp] theorem kind_enter : (t.enter kind).kind = kind := rfl

@[simp] theorem find?_enter : (t.enter kind).find? name = t.find? name := by
  simp only [find?, enter, List.map_cons, List.cons_append]
  rfl

theorem find_cons (symbols : List Symbol) :
    find (s :: symbols) name = if s.name == name then some s else find symbols name := by
  unfold find
  rw [List.find?_cons]
  split <;> simp_all

@[simp] theorem current_insert : (t.insert s).current = s :: t.current := by
  unfold insert current
  split <;> simp [*]

@[simp] theorem kind_insert : (t.insert s).kind = t.kind := by
  unfold insert kind
  split <;> simp [*]

@[simp] theorem isGlobal_insert : (t.insert s).isGlobal = t.isGlobal := by
  simp [isGlobal]

/-- The symbol that is declared last is the one that is found. -/
theorem find?_insert :
    (t.insert s).find? name = if s.name == name then some s else t.find? name := by
  unfold find? insert
  split
  · rename_i hframes
    simp only [hframes, List.map_nil, List.nil_append, List.findSome?_cons, find_cons]
    by_cases h : (s.name == name) = true
    · simp only [h, if_true]
    · simp only [h, if_false, Bool.false_eq_true]
  · rename_i frame frames hframes
    simp only [hframes, List.map_cons, List.cons_append, List.findSome?_cons, find_cons]
    by_cases h : (s.name == name) = true
    · simp only [h, if_true]
    · simp only [h, if_false, Bool.false_eq_true]

variable {t}

/-- Inside a function there is a frame. -/
theorem exists_frame_of_isGlobal (h : t.isGlobal = false) : ∃ frame frames, t.frames = frame :: frames := by
  cases hframes : t.frames with
  | nil => simp [isGlobal, kind, hframes] at h
  | cons frame frames => exact ⟨frame, frames, rfl⟩

/-- A frame that is closed takes with it what was declared in it. -/
theorem exit_insert (h : t.isGlobal = false) : (t.insert s).exit = t.exit := by
  obtain ⟨frame, frames, hframes⟩ := exists_frame_of_isGlobal h
  simp [insert, exit, hframes]

end SymbolTable

namespace Names

/-- The names once a symbol has been declared. -/
def insert (n : Names) (s : Symbol) : Names := { n with symbols := n.symbols.insert s }

/-- Whether a symbol can be declared in the innermost scope. -/
def accepts (n : Names) (s : Symbol) : Bool :=
  !Resolve.isReservedName s.name && !(n.symbols.isGlobal && n.hasFunction s.name) &&
    (SymbolTable.find n.symbols.current s.name).isNone

end Names

namespace Resolve

variable {n : Names}

/-- A symbol is declared where it can be declared, and elsewhere its name is found to be taken. -/
theorem run_declare (s : Symbol) (n : Names) :
    n.accepts s = true ∧ run (declare s) n = ((), ⟨n.insert s, []⟩) ∨
      n.accepts s = false ∧ ∃ problem : NameProblem, problem.code = .redefinition ∧
        run (declare s) n = ((), ⟨n, [⟨problem, s.loc⟩]⟩) := by
  unfold declare Names.accepts
  rw [run_names_bind]
  split
  · rename_i hreserved
    exact .inr ⟨by simp [hreserved], _, rfl, rfl⟩
  · rename_i hreserved
    split
    · rename_i hfunction
      exact .inr ⟨by simp [hfunction], _, rfl, rfl⟩
    · rename_i hfunction
      unfold SymbolTable.declare
      cases hfind : SymbolTable.find n.symbols.current s.name with
      | none => exact .inl ⟨by simp [hreserved, hfunction], rfl⟩
      | some existing => exact .inr ⟨by simp, _, rfl, rfl⟩

theorem run_declare_of_accepts {s : Symbol} (h : n.accepts s = true) :
    run (declare s) n = ((), ⟨n.insert s, []⟩) := by
  rcases run_declare s n with ⟨-, hrun⟩ | ⟨hnot, -⟩
  · exact hrun
  · rw [h] at hnot
    cases hnot

/-- A symbol is declared without a finding exactly where it can be declared. -/
theorem findings_declare_eq_nil {s : Symbol} :
    (run (declare s) n).2.findings = [] ↔ n.accepts s = true := by
  rcases run_declare s n with ⟨haccepts, hrun⟩ | ⟨haccepts, _, -, hrun⟩ <;> simp [haccepts, hrun]

end Resolve

/-! ### What is known of names -/

/-- The same is known of functions and structures. -/
structure Names.SameTables (n m : Names) : Prop where
  version : n.version = m.version
  functions : n.functions = m.functions
  structs : n.structs = m.structs

theorem Names.SameTables.eq_of_symbols {n m : Names} (h : n.SameTables m)
    (hsymbols : n.symbols = m.symbols) : n = m := by
  obtain ⟨version, symbols, functions, structs⟩ := n
  obtain ⟨hversion, hfunctions, hstructs⟩ := h
  cases hversion
  cases hfunctions
  cases hstructs
  cases hsymbols
  rfl

/-- The same is known of all names. -/
structure Names.Agree (n m : Names) : Prop extends n.SameTables m where
  find? : ∀ name, n.symbols.find? name = m.symbols.find? name

namespace Names.Agree

variable {n m : Names}

theorem hasFunction (h : n.Agree m) : n.hasFunction = m.hasFunction := by
  unfold Names.hasFunction
  rw [h.functions]

theorem resolveCall (h : n.Agree m) (loc : Location) (callee : Callee) (args : List Expr) :
    n.resolveCall loc callee args = m.resolveCall loc callee args := by
  have hbuiltin : n.builtinNote = m.builtinNote := by
    unfold Names.builtinNote
    rw [h.version]
  cases callee with
  | constructor ty => rfl
  | builtin name => simp only [Names.resolveCall, hbuiltin]
  | user name =>
    simp only [Names.resolveCall, h.hasFunction, Names.overloads, h.functions, hbuiltin]

theorem fieldType (h : n.Agree m) : n.fieldType = m.fieldType := by
  unfold Names.fieldType Names.memberType?
  rw [h.structs]

/-- Expressions depend on nothing but what is known of names. -/
theorem resolve (h : n.Agree m) (e : Expr) : e.resolve n = e.resolve m := by
  induction e with
  | lit note value => rfl
  | var note name => simp only [Expr.resolve, h.find?]
  | call note callee args ih =>
    simp only [Expr.resolve, Expr.resolveAll_eq_map, List.map_congr_left ih, h.resolveCall]
  | seq note exprs ih => simp only [Expr.resolve, Expr.resolveAll_eq_map, List.map_congr_left ih]
  | _ => simp only [Expr.resolve, h.fieldType, *]

theorem nameFindings (h : n.Agree m) (e : Expr) : e.nameFindings n = e.nameFindings m := by
  induction e with
  | lit note value => rfl
  | var note name => simp only [Expr.nameFindings, h.find?]
  | call note callee args ih =>
    simp only [Expr.nameFindings, Expr.nameFindingsAll_eq_flatMap, List.flatMap_congr ih, h.hasFunction]
  | seq note exprs ih =>
    simp only [Expr.nameFindings, Expr.nameFindingsAll_eq_flatMap, List.flatMap_congr ih]
  | _ => simp only [Expr.nameFindings, *]

theorem constant? (h : n.Agree m) : n.symbols.constant? = m.symbols.constant? := by
  funext name
  unfold SymbolTable.constant?
  rw [h.find?]

theorem lengthResolve (h : n.Agree m) : ArrayLength.resolve n = ArrayLength.resolve m := by
  funext length
  cases length with
  | unsized => rfl
  | sized e => exact congrArg _ (h.resolve e)

theorem arrayedType (h : n.Agree m) : n.arrayedType = m.arrayedType := by
  funext ty value array
  cases array with
  | none => rfl
  | some length =>
    have hsize : ArrayLength.size? n value = ArrayLength.size? m value := by
      funext length
      cases length with
      | unsized => rfl
      | sized e => simp only [ArrayLength.size?, h.constant?]
    simp only [Names.arrayedType, h.lengthResolve, hsize]

theorem lengthFindings (h : n.Agree m) : n.lengthFindings = m.lengthFindings := by
  funext array
  cases array with
  | none => rfl
  | some length =>
    cases length with
    | unsized => rfl
    | sized e => exact h.nameFindings e

theorem member (h : n.Agree m) : n.member = m.member := by
  funext x
  simp only [Names.member, h.arrayedType, h.lengthResolve]

theorem declarator (h : n.Agree m) : n.declarator = m.declarator := by
  have hresolve : Expr.resolve n = Expr.resolve m := funext h.resolve
  funext ty d
  simp only [Names.declarator, h.arrayedType, h.lengthResolve, hresolve]

theorem declaratorFindings (h : n.Agree m) : n.declaratorFindings = m.declaratorFindings := by
  have hfindings : Expr.nameFindings n = Expr.nameFindings m := funext h.nameFindings
  funext d
  simp only [Names.declaratorFindings, h.lengthFindings, hfindings]

theorem symbolOf (h : n.Agree m) : n.symbolOf = m.symbolOf := by
  funext q d
  simp only [Names.symbolOf, h.constant?]

end Names.Agree

/-! ### Inside a function -/

/-- Inside a function nothing but the innermost scope has changed, and the structures. -/
structure Names.Extends (n n' : Names) : Prop where
  version : n'.version = n.version
  functions : n'.functions = n.functions
  exit : n'.symbols.exit = n.symbols.exit
  current : n.symbols.current <:+ n'.symbols.current
  isLocal : n'.symbols.isGlobal = false

namespace Names.Extends

variable {n n' n'' : Names}

theorem refl (h : n.symbols.isGlobal = false) : n.Extends n :=
  ⟨rfl, rfl, rfl, List.suffix_rfl, h⟩

theorem trans (h : n.Extends n') (h' : n'.Extends n'') : n.Extends n'' :=
  ⟨h'.version.trans h.version, h'.functions.trans h.functions, h'.exit.trans h.exit,
    h.current.trans h'.current, h'.isLocal⟩

/-- A name that is declared in the innermost scope stays declared in it. -/
theorem find_ne_none (h : n.Extends n') {name : String}
    (hname : SymbolTable.find n.symbols.current name ≠ none) :
    SymbolTable.find n'.symbols.current name ≠ none := by
  obtain ⟨new, hnew⟩ := h.current
  rw [← hnew]
  unfold SymbolTable.find at hname ⊢
  rw [List.find?_append]
  simp [Option.or_eq_none_iff, hname]

end Names.Extends

theorem Names.isGlobal_enter (n : Names) {kind : ScopeKind} (hkind : kind ≠ .global) :
    (n.enter kind).symbols.isGlobal = false := by
  simpa [Names.enter, SymbolTable.isGlobal] using hkind

namespace Resolve

variable {α β : Type} {n m : Names}

/-- A step that, inside a function, changes nothing but the innermost scope and the structures. -/
class Local (act : Resolve α) : Prop where
  extends_run : ∀ n : Names, n.symbols.isGlobal = false → n.Extends (run act n).2.names

theorem extends_of_local (act : Resolve α) [h : Local act]
    (hn : n.symbols.isGlobal = false) : n.Extends (run act n).2.names := h.extends_run n hn

instance local_pure (a : α) : Local (pure a : Resolve α) where
  extends_run _ h := .refl h

instance local_bind (act : Resolve α) (f : α → Resolve β) [Local act] [∀ a, Adds (f a)]
    [∀ a, Local (f a)] : Local (act >>= f) where
  extends_run n h := by
    have hact := extends_of_local act h
    rw [run_bind]
    exact hact.trans (extends_of_local _ hact.isLocal)

instance local_map (f : α → β) (act : Resolve α) [Local act] : Local (f <$> act) where
  extends_run _ h := extends_of_local act h

instance local_ite {c : Prop} [Decidable c] {x y : Resolve α} [Local x] [Local y] :
    Local (if c then x else y) := by
  split <;> infer_instance

instance local_expr (e : Expr) : Local (expr e) where
  extends_run _ h := .refl h

instance local_mapM {act : α → Resolve β} [∀ a, Adds (act a)] [∀ a, Local (act a)] (xs : List α) :
    Local (xs.mapM act) := by
  induction xs with
  | nil =>
    rw [List.mapM_nil]
    infer_instance
  | cons x xs ih =>
    rw [List.mapM_cons]
    infer_instance

instance local_optionMapM {act : α → Resolve β} [∀ a, Local (act a)] (x : Option α) :
    Local (x.mapM act) := by
  cases x with
  | none => exact local_pure none
  | some a => exact local_map some (act a)

/-- A scope that a step opens is closed behind it. -/
theorem symbols_within (kind : ScopeKind) (hkind : kind ≠ .global) (act : Resolve α) [Local act] :
    (run (within kind act) n).2.names.symbols = n.symbols := by
  have h := extends_of_local act (n.isGlobal_enter hkind)
  rw [run_within]
  exact h.exit

theorem functions_within (kind : ScopeKind) (hkind : kind ≠ .global) (act : Resolve α) [Local act] :
    (run (within kind act) n).2.names.functions = n.functions := by
  rw [run_within]
  exact (extends_of_local act (n.isGlobal_enter hkind)).functions

theorem local_within {kind : ScopeKind} (hkind : kind ≠ .global) (act : Resolve α) [Local act] :
    Local (within kind act) where
  extends_run n h := by
    have hact := extends_of_local act (n.isGlobal_enter hkind)
    have hsymbols := symbols_within (n := n) kind hkind act
    exact ⟨hact.version, hact.functions, congrArg _ hsymbols, by simp [hsymbols], by rw [hsymbols, h]⟩

instance local_within_block (act : Resolve α) [Local act] : Local (within .block act) :=
  local_within (by decide) act

instance local_within_loop (act : Resolve α) [Local act] : Local (within .loop act) :=
  local_within (by decide) act

instance local_declare (s : Symbol) : Local (declare s) where
  extends_run n h := by
    rcases run_declare s n with ⟨-, hrun⟩ | ⟨-, _, -, hrun⟩ <;> rw [hrun]
    · exact ⟨rfl, rfl, SymbolTable.exit_insert s h, by simp [Names.insert],
        (SymbolTable.isGlobal_insert _ _).trans h⟩
    · exact .refl h

instance local_structDef (d : StructDef) : Local (structDef d) where
  extends_run n h := by
    rw [run_structDef]
    exact ⟨rfl, rfl, rfl, List.suffix_rfl, h⟩

instance local_declarator (q : TypeQualifiers) (ty : Ty) (d : Declarator) :
    Local (declarator q ty d) where
  extends_run n h := by
    rw [run_declarator]
    exact extends_of_local (declare _) h

instance local_declaration (d : Declaration) : Local (declaration d) := by
  unfold declaration
  infer_instance

instance local_loopStart (start : LoopStart) : Local (loopStart start) := by
  cases start <;> unfold loopStart <;> infer_instance

theorem local_statements_of {ss : List Stmt} (h : ∀ s ∈ ss, Local (statement false s)) :
    Local (statements ss) := by
  induction ss with
  | nil => exact local_pure []
  | cons s ss ih =>
    have := h s List.mem_cons_self
    have := ih fun x hx => h x (List.mem_cons_of_mem _ hx)
    rw [statements]
    infer_instance

instance local_loopBody (body : Stmt) (act : Resolve Stmt) [Local act] :
    Local (loopBody body act) := by
  unfold loopBody
  infer_instance

instance local_statement (inner : Bool) (s : Stmt) : Local (statement inner s) := by
  induction s generalizing inner with
  | block loc body ih | switch loc selector bodyLoc body ih =>
    have : Local (statements body) := local_statements_of fun s hs => ih s hs false
    rw [statement]
    infer_instance
  | ifThen loc condition thenBranch ih =>
    have := ih true
    rw [statement]
    infer_instance
  | ifElse loc condition thenBranch elseBranch iht ihe =>
    have := iht true
    have := ihe true
    rw [statement]
    infer_instance
  | forLoop loc start condition step body ih | whileLoop loc condition body ih
  | doWhile loc body condition ih =>
    have := ih true
    rw [statement]
    infer_instance
  | _ =>
    rw [statement]
    infer_instance

instance local_statements (ss : List Stmt) : Local (statements ss) :=
  local_statements_of fun s _ => local_statement false s

instance local_declareAll (ss : List Symbol) : Local (declareAll ss) := by
  induction ss with
  | nil => exact local_pure _
  | cons s ss ih =>
    unfold declareAll
    infer_instance

end Resolve

/-! ### Alike places -/

/-- Two places inside functions know the same names, and what is free in the innermost scope of the
first is free in that of the second, but for the names in `taken`. -/
structure Names.Alike (taken : List String) (n m : Names) : Prop extends n.Agree m where
  left : n.symbols.isGlobal = false
  right : m.symbols.isGlobal = false
  free : ∀ name, name ∉ taken → SymbolTable.find n.symbols.current name = none →
    SymbolTable.find m.symbols.current name = none

namespace Names.Alike

variable {n m n' m' : Names} {taken taken' : List String}

theorem enter (h : n.Alike taken m) {kind kind' : ScopeKind} (hkind : kind ≠ .global)
    (hkind' : kind' ≠ .global) : (n.enter kind).Alike [] (m.enter kind') where
  version := h.version
  functions := h.functions
  structs := h.structs
  find? name := by simpa [Names.enter] using h.find? name
  left := n.isGlobal_enter hkind
  right := m.isGlobal_enter hkind'
  free _ _ _ := rfl

/-- A scope may be opened on the left only; then what is declared in the innermost scope on the right
is taken. -/
theorem enter_left (h : n.Alike taken m) {kind : ScopeKind} (hkind : kind ≠ .global)
    (htaken : ∀ name, name ∉ taken' → SymbolTable.find m.symbols.current name = none) :
    (n.enter kind).Alike taken' m where
  version := h.version
  functions := h.functions
  structs := h.structs
  find? name := by simpa [Names.enter] using h.find? name
  left := n.isGlobal_enter hkind
  right := h.right
  free name hname _ := htaken name hname

/-- Two places stay alike while other tables grow alike. -/
theorem of_symbols (h : n.Alike taken m) (htables : n'.SameTables m')
    (hn : n'.symbols = n.symbols) (hm : m'.symbols = m.symbols) : n'.Alike taken m' where
  toSameTables := htables
  find? name := by rw [hn, hm, h.find?]
  left := by rw [hn, h.left]
  right := by rw [hm, h.right]
  free := by rw [hn, hm]; exact h.free

theorem insert (h : n.Alike taken m) (s : Symbol) : (n.insert s).Alike taken (m.insert s) where
  version := h.version
  functions := h.functions
  structs := h.structs
  find? name := by simp only [Names.insert, SymbolTable.find?_insert, h.find?]
  left := by simpa [Names.insert] using h.left
  right := by simpa [Names.insert] using h.right
  free name hname hfree := by
    simp only [Names.insert, SymbolTable.current_insert, SymbolTable.find_cons] at hfree ⊢
    split at hfree
    · cases hfree
    · rename_i hne
      rw [if_neg hne]
      exact h.free name hname hfree

/-- What can be declared on the left can be declared on the right, unless its name is taken. -/
theorem accepts (h : n.Alike taken m) {s : Symbol} (hs : s.name ∉ taken)
    (haccepts : n.accepts s = true) : m.accepts s = true := by
  simp only [Names.accepts, Bool.and_eq_true, Bool.not_eq_true', Option.isNone_iff_eq_none, h.right,
    Bool.false_and] at haccepts ⊢
  exact ⟨⟨haccepts.1.1, trivial⟩, h.free s.name hs haccepts.2⟩

end Names.Alike

/-- Places that are alike, where on the right nothing but the names in `own` is declared in the
innermost scope. -/
structure Names.AlikeWithin (own : List String) (n m : Names) : Prop extends n.Alike [] m where
  own : ∀ name, name ∉ own → SymbolTable.find m.symbols.current name = none

/-! ### One step at one place, another at another -/

namespace Resolve

variable {α β γ δ : Type} {P Q R : Names → Names → Prop} {taken : List String}

/-- At places that are in the relation `P`, `act'` finds nothing where `act` finds nothing, and the
places behind the two steps are in the relation `Q`. -/
def Relate (P : Names → Names → Prop) (act : Resolve α) (act' : Resolve β)
    (Q : Names → Names → Prop) : Prop :=
  ∀ n m, P n m → (run act n).2.findings = [] →
    (run act' m).2.findings = [] ∧ Q (run act n).2.names (run act' m).2.names

namespace Relate

variable {act : Resolve α} {act' : Resolve β}

theorem pure (a : α) (b : β) : Relate P (Pure.pure a : Resolve α) (Pure.pure b : Resolve β) P :=
  fun _ _ hP _ => ⟨rfl, hP⟩

theorem bind {f : α → Resolve γ} {f' : β → Resolve δ}
    [∀ a, Adds (f a)] [∀ b, Adds (f' b)] (hact : Relate P act act' Q)
    (hf : ∀ a b, Relate Q (f a) (f' b) R) : Relate P (act >>= f) (act' >>= f') R := by
  intro n m hP hnil
  rw [run_bind, behind_findings, List.append_eq_nil_iff] at hnil
  obtain ⟨hnil', hQ⟩ := hact n m hP hnil.1
  obtain ⟨hnil'', hR⟩ := hf (run act n).1 (run act' m).1 _ _ hQ hnil.2
  rw [run_bind, run_bind, behind_findings, hnil', List.nil_append]
  exact ⟨hnil'', hR⟩

theorem map (f : α → γ) (f' : β → δ)
    (h : Relate P act act' Q) : Relate P (f <$> act) (f' <$> act') Q := h

/-- Where the scope is closed behind the steps, only the tables count behind them. -/
theorem narrow {own : List String} (h : Relate (Names.Alike []) act act' (Names.Alike [])) :
    Relate (Names.AlikeWithin own) act act' Names.SameTables := fun n m hP hnil =>
  (h n m hP.toAlike hnil).imp_right (·.toSameTables)

theorem mapM {act : α → Resolve β} {act' : α → Resolve γ} [∀ a, Adds (act a)]
    [∀ a, Adds (act' a)] {xs : List α} (h : ∀ x ∈ xs, Relate P (act x) (act' x) P) :
    Relate P (xs.mapM act) (xs.mapM act') P := by
  induction xs with
  | nil =>
    rw [List.mapM_nil, List.mapM_nil]
    exact .pure _ _
  | cons x xs ih =>
    rw [List.mapM_cons, List.mapM_cons]
    refine (h x List.mem_cons_self).bind fun _ _ => ?_
    exact (ih fun y hy => h y (List.mem_cons_of_mem _ hy)).map _ _

theorem optionMapM {act : α → Resolve β} {act' : α → Resolve γ} {x : Option α}
    (h : ∀ a ∈ x, Relate P (act a) (act' a) P) : Relate P (x.mapM act) (x.mapM act') P := by
  cases x with
  | none => exact .pure _ _
  | some a => exact (h a rfl).map some some

end Relate

/-- Scopes of their own may be opened on both sides: what is declared in them is gone behind them. -/
theorem relate_within {act : Resolve α} {act' : Resolve β} [Local act] [Local act']
    {kind kind' : ScopeKind} (hkind : kind ≠ .global) (hkind' : kind' ≠ .global)
    (h : Relate (Names.AlikeWithin []) act act' Names.SameTables) :
    Relate (Names.Alike taken) (within kind act) (within kind' act') (Names.Alike taken) := by
  intro n m hP hnil
  obtain ⟨hnil', htables⟩ := h _ _ ⟨hP.enter hkind hkind', fun _ _ => rfl⟩ hnil
  have hsymbols := symbols_within (n := n) kind hkind act
  have hsymbols' := symbols_within (n := m) kind' hkind' act'
  exact ⟨hnil', hP.of_symbols ⟨htables.version, htables.functions, htables.structs⟩ hsymbols hsymbols'⟩

theorem relate_expr (hP : ∀ n m, P n m → n.Agree m) (e : Expr) : Relate P (expr e) (expr e) P :=
  fun n m h hnil => ⟨((hP n m h).nameFindings e).symm.trans hnil, h⟩

theorem relate_optionExpr (hP : ∀ n m, P n m → n.Agree m) (e : Option Expr) :
    Relate P (e.mapM expr) (e.mapM expr) P := .optionMapM fun x _ => relate_expr hP x

theorem relate_declare {s : Symbol} (hs : s.name ∉ taken) :
    Relate (Names.Alike taken) (declare s) (declare s) (Names.Alike taken) := by
  intro n m hP hnil
  have haccepts := findings_declare_eq_nil.mp hnil
  rw [run_declare_of_accepts haccepts, run_declare_of_accepts (hP.accepts hs haccepts)]
  exact ⟨rfl, hP.insert s⟩

theorem relate_structDef (d : StructDef) :
    Relate (Names.Alike taken) (structDef d) (structDef d) (Names.Alike taken) := by
  intro n m hP hnil
  rw [run_structDef] at hnil ⊢
  rw [run_structDef, ← hP.member, ← hP.structs, ← hP.lengthFindings]
  exact ⟨hnil, hP.of_symbols ⟨hP.version, hP.functions, rfl⟩ rfl rfl⟩

theorem relate_declarator (q : TypeQualifiers) (ty : Ty) {d : Declarator} (hd : d.name ∉ taken) :
    Relate (Names.Alike taken) (declarator q ty d) (declarator q ty d) (Names.Alike taken) := by
  intro n m hP hnil
  rw [run_declarator] at hnil ⊢
  rw [run_declarator, ← hP.declarator, ← hP.symbolOf, ← hP.declaratorFindings]
  rw [behind_findings, List.append_eq_nil_iff] at hnil
  have hdeclare := relate_declare (s := n.symbolOf q (n.declarator ty d)) hd n m hP hnil.2
  exact ⟨by rw [behind_findings, hnil.1, hdeclare.1, List.nil_append], hdeclare.2⟩

/-- Declarations: no variable may have a name that is taken. -/
theorem relate_declaration {d : Declaration} (hd : ∀ x ∈ d.declarators, x.name ∉ taken) :
    Relate (Names.Alike taken) (declaration d) (declaration d) (Names.Alike taken) := by
  unfold declaration
  refine (Relate.optionMapM fun x _ => relate_structDef x).bind fun _ _ => ?_
  exact (Relate.mapM fun x hx => relate_declarator _ _ (hd x hx)).bind fun _ _ => .pure _ _

end Resolve

/-! ### Statements -/

/-- The names of the variables of a declaration. -/
def Declaration.names (d : Declaration) : List String := d.declarators.map (·.name)

/-- The names that the first part of a loop head declares. -/
def LoopStart.names : LoopStart → List String
  | .decl _ d => d.names
  | _ => []

namespace Stmt

/-- The names that a statement declares in the scope in which it stands. -/
def ownNames : Stmt → List String
  | .decl _ d => d.names
  | _ => []

/-- The names that a statement in braces declares in a scope that it shares. -/
def bodyNames : Stmt → List String
  | .block _ body => body.flatMap ownNames
  | _ => []

/-- The names that the head of a statement declares, if it is a loop whose head has three parts. -/
def head? : Stmt → Option (List String)
  | .forLoop _ start _ _ _ => some start.names
  | _ => none

/-- A statement with other branches and bodies. -/
def withBodies (f : Stmt → Stmt) (g : List Stmt → List Stmt) : Stmt → Stmt
  | .block loc body => .block loc (g body)
  | .ifThen loc condition s => .ifThen loc condition (f s)
  | .ifElse loc condition s t => .ifElse loc condition (f s) (f t)
  | .forLoop loc start condition step s => .forLoop loc start condition step (f s)
  | .whileLoop loc condition s => .whileLoop loc condition (f s)
  | .doWhile loc s condition => .doWhile loc (f s) condition
  | .switch loc selector bodyLoc body => .switch loc selector bodyLoc (g body)
  | s => s

end Stmt

namespace Resolve

variable {n : Names} {taken : List String}

/-- What a declaration without a finding leaves in the innermost scope: its variables in front of
what was there, which has none of their names. -/
theorem current_declarators {q : TypeQualifiers} {ty : Ty} {ds : List Declarator}
    (hnil : (run (ds.mapM (declarator q ty)) n).2.findings = []) :
    ∃ new : List Symbol, new.map (·.name) = (ds.map (·.name)).reverse ∧
      (run (ds.mapM (declarator q ty)) n).2.names.symbols.current = new ++ n.symbols.current ∧
      ∀ x ∈ ds.map (·.name), SymbolTable.find n.symbols.current x = none := by
  induction ds generalizing n with
  | nil => exact ⟨[], rfl, by rw [run_mapM_nil]; rfl, by simp⟩
  | cons d ds ih =>
    rw [run_mapM_cons] at hnil ⊢
    obtain ⟨hd, hds⟩ := List.append_eq_nil_iff.mp hnil
    obtain ⟨new, hnew, hcurrent, hfree⟩ := ih hds
    rw [run_declarator, behind_findings, List.append_eq_nil_iff] at hd
    have haccepts := findings_declare_eq_nil.mp hd.2
    rw [run_declarator, behind_names, run_declare_of_accepts haccepts] at hcurrent hfree ⊢
    refine ⟨new ++ [n.symbolOf q (n.declarator ty d)], ?_, ?_, ?_⟩
    · simp only [List.map_append, hnew, List.map_cons, List.reverse_cons]
      rfl
    · rw [hcurrent]
      simp [Names.insert]
    · intro x hx
      rcases List.mem_cons.mp hx with rfl | hx
      · simp only [Names.accepts, Bool.and_eq_true, Option.isNone_iff_eq_none] at haccepts
        exact haccepts.2
      · have hrest := hfree x hx
        simp only [Names.insert, SymbolTable.current_insert, SymbolTable.find_cons] at hrest
        split at hrest
        · cases hrest
        · exact hrest

theorem current_declaration {d : Declaration} (hnil : (run (declaration d) n).2.findings = []) :
    ∃ new : List Symbol, new.map (·.name) = d.names.reverse ∧
      (run (declaration d) n).2.names.symbols.current = new ++ n.symbols.current ∧
      ∀ x ∈ d.names, SymbolTable.find n.symbols.current x = none := by
  have hstruct : (run (d.struct.mapM structDef) n).2.names.symbols = n.symbols := by
    cases d.struct with
    | none => rfl
    | some x => rw [run_optionMapM_some, run_structDef]
  unfold declaration at hnil ⊢
  rw [run_bind, run_bind] at hnil ⊢
  have hdeclarators := current_declarators (List.append_eq_nil_iff.mp
    (List.append_eq_nil_iff.mp hnil).2).1
  rwa [hstruct] at hdeclarators

theorem relate_loopStart (start : LoopStart) :
    Relate (Names.AlikeWithin []) (loopStart start) (loopStart start)
      (Names.AlikeWithin start.names) := by
  cases start with
  | absent | empty loc => exact .pure _ _
  | expr loc e =>
    exact (relate_expr (fun _ _ h => h.toAgree) e).map _ _
  | decl loc d =>
    refine Relate.bind (Q := Names.AlikeWithin d.names) ?_ fun _ _ => .pure _ _
    intro n m hP hnil
    have hrelate := relate_declaration (d := d) (fun _ _ => List.not_mem_nil) n m hP.toAlike hnil
    obtain ⟨new, hnew, hcurrent, -⟩ := current_declaration hrelate.1
    refine ⟨hrelate.1, hrelate.2, fun name hname => ?_⟩
    have hold := hP.own name List.not_mem_nil
    rw [hcurrent]
    unfold SymbolTable.find at hold ⊢
    rw [List.find?_append, hold, Option.or_none, List.find?_eq_none]
    intro s hs hsname
    have hmem : s.name ∈ new.map (·.name) := List.mem_map_of_mem hs
    rw [hnew, List.mem_reverse, eq_of_beq hsname] at hmem
    exact hname hmem

theorem relate_statements {ss : List Stmt}
    (h : ∀ s ∈ ss, Relate (Names.Alike taken) (statement false s) (statement false s)
      (Names.Alike taken)) :
    Relate (Names.Alike taken) (statements ss) (statements ss) (Names.Alike taken) := by
  induction ss with
  | nil => exact .pure _ _
  | cons s ss ih =>
    rw [statements]
    refine (h s List.mem_cons_self).bind fun _ _ => ?_
    exact (ih fun x hx => h x (List.mem_cons_of_mem _ hx)).map _ _

/-- The bodies of two loops, alike up to what the heads declare; both have braces or neither. -/
theorem relate_loopBody {own : List String} {body body' : Stmt} (hblock : body'.isBlock = body.isBlock)
    (h : Relate (Names.Alike []) (statement true body) (statement true body') (Names.Alike [])) :
    Relate (Names.AlikeWithin own) (loopBody body (statement true body))
      (loopBody body' (statement true body')) Names.SameTables := by
  unfold loopBody
  rw [hblock]
  split
  · exact h.narrow
  · exact (relate_within (by decide) (by decide) h.narrow).narrow

/-- A statement and one with other branches and bodies, if those do the same at places that are alike. -/
theorem relate_withBodies {f : Stmt → Stmt} {g : List Stmt → List Stmt} (inner : Bool) {s : Stmt}
    (hown : ∀ x ∈ s.ownNames, x ∉ taken)
    (hbranch : ∀ c ∈ s.children,
      Relate (Names.AlikeWithin []) (statement true c) (statement true (f c)) Names.SameTables)
    (hloop : ∀ c ∈ s.children, Relate (Names.AlikeWithin (s.head?.getD [])) (loopBody c (statement true c))
      (loopBody (f c) (statement true (f c))) Names.SameTables)
    (hscope : ∀ own, own = [] ∨ own = taken ∧ inner = true ∧ s.isBlock = true →
      Relate (Names.Alike own) (statements s.children) (statements (g s.children)) (Names.Alike own)) :
    Relate (Names.Alike taken) (statement inner s) (statement inner (s.withBodies f g))
      (Names.Alike taken) := by
  have hagree : ∀ taken, ∀ n m : Names, n.Alike taken m → n.Agree m := fun _ _ _ h => h.toAgree
  have hwithin : ∀ c ∈ s.children, Relate (Names.Alike taken) (within .block (statement true c))
      (within .block (statement true (f c))) (Names.Alike taken) := fun c hc =>
    relate_within (by decide) (by decide) (hbranch c hc)
  have hblock : Relate (Names.Alike taken) (within .block (statements s.children))
      (within .block (statements (g s.children))) (Names.Alike taken) :=
    relate_within (by decide) (by decide)
      (hscope [] (.inl rfl)).narrow
  cases s with
  | expr loc e =>
    rw [statement]
    exact (relate_expr (hagree _) e).map _ _
  | decl loc d =>
    rw [statement]
    refine (relate_declaration fun x hx => ?_).map _ _
    exact hown x.name (List.mem_map_of_mem hx)
  | block loc body =>
    rw [statement]
    refine Relate.map _ _ ?_
    cases inner with
    | true => exact hscope taken (.inr ⟨rfl, rfl, rfl⟩)
    | false => exact hblock
  | ifThen loc condition thenBranch =>
    rw [statement]
    refine (relate_expr (hagree _) condition).bind fun _ _ => ?_
    exact (hwithin thenBranch (by simp [Stmt.children])).map _ _
  | ifElse loc condition thenBranch elseBranch =>
    rw [statement]
    refine (relate_expr (hagree _) condition).bind fun _ _ => ?_
    refine (hwithin thenBranch (by simp [Stmt.children])).bind fun _ _ => ?_
    exact (hwithin elseBranch (by simp [Stmt.children])).map _ _
  | forLoop loc start condition step body =>
    rw [statement]
    refine relate_within (by decide) (by decide) ?_
    refine (relate_loopStart start).bind fun _ _ => ?_
    refine (relate_optionExpr (fun _ _ h => h.toAgree) condition).bind fun _ _ => ?_
    refine (relate_optionExpr (fun _ _ h => h.toAgree) step).bind fun _ _ => ?_
    exact (hloop body (by simp [Stmt.children])).map _ _
  | whileLoop loc condition body =>
    rw [statement]
    refine relate_within (by decide) (by decide) ?_
    refine (relate_expr (fun _ _ h => h.toAgree) condition).bind fun _ _ => ?_
    exact (hloop body (by simp [Stmt.children])).map _ _
  | doWhile loc body condition =>
    rw [statement]
    refine relate_within (by decide) (by decide) ?_
    refine (relate_expr (fun _ _ h => h.toAgree) condition).bind fun _ _ => ?_
    exact (hloop body (by simp [Stmt.children])).bind fun _ _ => .pure _ _
  | switch loc selector bodyLoc body =>
    rw [statement]
    refine (relate_expr (hagree _) selector).bind fun _ _ => ?_
    exact hblock.map _ _
  | label loc value | result loc value =>
    rw [statement]
    exact (relate_optionExpr (hagree _) value).map _ _
  | jump loc kind | empty loc => exact .pure _ _

/-- **What is resolved without a finding at one place is so at a place that is alike**, unless it
declares a name that is taken there. -/
theorem relate_statement (inner : Bool) (s : Stmt) (hown : ∀ x ∈ s.ownNames, x ∉ taken)
    (hbody : inner = true → ∀ x ∈ s.bodyNames, x ∉ taken) :
    Relate (Names.Alike taken) (statement inner s) (statement inner s) (Names.Alike taken) := by
  induction s using Stmt.forall_of_children generalizing inner taken with
  | h s ih =>
    -- a statement below, in a scope of its own: nothing is taken there
    have hbranch : ∀ c ∈ s.children, Relate (Names.Alike []) (statement true c) (statement true c)
        (Names.Alike []) := fun c hc =>
      ih c hc true (fun _ _ => List.not_mem_nil) fun _ _ _ => List.not_mem_nil
    have hsame : s.withBodies id id = s := by cases s <;> rfl
    have hrelate := relate_withBodies (f := id) (g := id) inner hown
      (fun c hc => (hbranch c hc).narrow)
      (fun c hc => relate_loopBody rfl (hbranch c hc)) fun own hown =>
        relate_statements fun c hc => ih c hc false (fun x hx hmem => ?_) (by simp)
    · rwa [hsame] at hrelate
    · rcases hown with rfl | ⟨rfl, hinner, hblock⟩
      · cases hmem
      · cases s with
        | block loc body => exact hbody hinner x (List.mem_flatMap.mpr ⟨c, hc, hx⟩) hmem
        | _ => cases hblock

end Resolve

end GlslEs
