import GlslEs.Proofs.Check.Constants
import GlslEs.Proofs.Reading.Spelled

/-!
# Structures that are defined once

Resolving keeps the members of structures and blocks in one table without scopes.  A structure whose
name is in the table already is reported, wherever it is defined; a block is entered without a question.

* `Resolve.Defines`: a step enters structures with certain names, and reports those that are known.
* `Resolve.defines_statement`: a statement enters the structures that it defines.
* `Resolve.structNames_after_topLevel`: what a declaration at the top makes known.
* `Resolve.not_mem_structNames_of_distinct`: **where nothing is declared twice, no structure has a name
  that is known**.
-/

namespace GlslEs

/-- The names of the structures and blocks that are known, the last one first. -/
def Names.structNames (n : Names) : List String := n.structs.map (·.1)

/-- The structures and blocks that a declaration makes known, the last one first. -/
def TopLevel.entered : TopLevel → List String
  | .block b => [b.name]
  | d => d.defined

namespace Resolve

variable {α β : Type} {n : Names} {act : Resolve α} {names : List String} {f : α → Resolve β}

/-- A step enters structures with certain names, the last one first, and if nothing is declared twice
then none of them was known. -/
structure Defines (act : Resolve α) (names : List String) : Prop where
  enters : ∀ n, ∃ entries, (after act n).structs = entries ++ n.structs ∧ entries.map (·.1) = names
  fresh : ∀ n, Distinct act n → ∀ name ∈ names, name ∉ n.structNames

theorem Defines.known (h : Defines act names) (n : Names) :
    (after act n).structNames = names ++ n.structNames := by
  obtain ⟨entries, hstructs, rfl⟩ := h.enters n
  rw [Names.structNames, hstructs, List.map_append]
  rfl

/-- A step that leaves the table of structures alone. -/
theorem Defines.of_structs (h : ∀ n, (after act n).structs = n.structs) :
    Defines act [] where
  enters n := ⟨[], h n, rfl⟩
  fresh _ _ _ hname := by cases hname

theorem defines_pure (a : α) : Defines (pure a : Resolve α) [] := .of_structs fun _ => rfl

theorem after_bind (act : Resolve α) (f : α → Resolve β) [∀ a, Adds (f a)] :
    after (act >>= f) n = after (f (run act n).1) (after act n) := by
  rw [after, run_bind]
  rfl

theorem Defines.bind [∀ a, Adds (f a)]
    {names' : List String} (hact : Defines act names) (hf : ∀ a, Defines (f a) names') :
    Defines (act >>= f) (names' ++ names) where
  enters n := by
    obtain ⟨entries, hstructs, rfl⟩ := hact.enters n
    obtain ⟨entries', hstructs', rfl⟩ := (hf (run act n).1).enters (after act n)
    refine ⟨entries' ++ entries, ?_, List.map_append⟩
    rw [after_bind, hstructs', hstructs, List.append_assoc]
  fresh n hdistinct name hname := by
    obtain ⟨hd, hd'⟩ := distinct_bind hdistinct
    rcases List.mem_append.mp hname with hname | hname
    · have hnew := (hf _).fresh _ hd' name hname
      rw [hact.known, List.mem_append, not_or] at hnew
      exact hnew.2
    · exact hact.fresh n hd name hname

/-- A step behind one that enters nothing. -/
theorem Defines.behind [∀ a, Adds (f a)]
    (hact : Defines act []) (hf : ∀ a, Defines (f a) names) : Defines (act >>= f) names := by
  simpa using hact.bind hf

theorem Defines.map (h : Defines act names) (f : α → β) :
    Defines (f <$> act) names := ⟨h.enters, h.fresh⟩

theorem Defines.within (h : Defines act names)
    (kind : ScopeKind) : Defines (within kind act) names where
  enters n := h.enters (n.enter kind)
  fresh n hdistinct := h.fresh (n.enter kind) (distinct_within hdistinct)

theorem Defines.loopBody {act : Resolve Stmt} (h : Defines act names)
    (body : Stmt) : Defines (loopBody body act) names := by
  unfold Resolve.loopBody
  split
  · exact h
  · exact h.within .block

theorem defines_mapM {act : α → Resolve β} [∀ a, Adds (act a)] (h : ∀ a, Defines (act a) [])
    (as : List α) : Defines (as.mapM act) [] := by
  induction as with
  | nil => exact defines_pure []
  | cons a as ih =>
    rw [List.mapM_cons]
    exact (h a).behind fun b => ih.behind fun bs => defines_pure (b :: bs)

/-! ### Declarations -/

theorem structs_after_declare (s : Symbol) (n : Names) : (after (declare s) n).structs = n.structs := by
  unfold after declare
  rw [run_names_bind]
  repeat' split
  all_goals rfl

theorem structs_after_declareFunction (p : Prototype) (defining : Bool) (n : Names) :
    (after (declareFunction p defining) n).structs = n.structs := by
  unfold after declareFunction
  rw [run_names_bind]
  repeat' split
  all_goals rfl

theorem defines_declareAll (ss : List Symbol) : Defines (declareAll ss) [] := by
  induction ss with
  | nil => exact defines_pure _
  | cons s ss ih => exact (Defines.of_structs (structs_after_declare s)).behind fun _ => ih

theorem defines_expr (e : Expr) : Defines (expr e) [] := .of_structs fun _ => rfl

theorem defines_option (e : Option Expr) : Defines (e.mapM expr) [] :=
  .of_structs fun n => by rw [after_option]

/-- A structure is entered, and reported if its name is known. -/
theorem defines_structDef (d : StructDef) : Defines (structDef d) [d.name] where
  enters n := by
    rw [after, run_structDef]
    exact ⟨[_], rfl, rfl⟩
  fresh n hdistinct name hname := by
    obtain rfl := List.mem_singleton.mp hname
    intro hknown
    obtain ⟨entry, hentry, hname⟩ := List.mem_map.mp hknown
    have hsome : (n.structs.lookup d.name).isSome = true := by
      rw [List.lookup_isSome_iff]
      exact ⟨entry, hentry, by simp [hname]⟩
    unfold Distinct at hdistinct
    rw [run_structDef, if_pos hsome] at hdistinct
    exact hdistinct ⟨.structTwice d.name, d.loc⟩ (by simp) rfl

theorem defines_declarator (q : TypeQualifiers) (ty : Ty) (d : Declarator) :
    Defines (declarator q ty d) [] := by
  refine .of_structs fun n => ?_
  rw [after, run_declarator]
  exact structs_after_declare _ n

theorem defines_declaration (d : Declaration) : Defines (declaration d) d.defined := by
  have hstruct : Defines (d.struct.mapM structDef) d.defined := by
    unfold Declaration.defined
    cases d.struct with
    | none => exact defines_pure none
    | some x => exact (defines_structDef x).map some
  have hrest := hstruct.bind fun struct =>
    (defines_mapM (defines_declarator d.qualifiers d.ty) d.declarators).map
      fun declarators => { d with struct, declarators }
  exact hrest

theorem defines_prototype (p : Prototype) (defining : Bool) : Defines (prototype p defining) [] := by
  refine .of_structs fun n => ?_
  rw [after, run_prototype]
  exact structs_after_declareFunction _ defining n

/-! ### Statements -/

theorem defines_loopStart (start : LoopStart) : Defines (loopStart start) start.defined := by
  cases start with
  | absent | empty loc => exact defines_pure _
  | expr loc e => exact (defines_expr e).map _
  | decl loc d => exact (defines_declaration d).map _

theorem defines_statements_of {ss : List Stmt} (h : ∀ s ∈ ss, Defines (statement false s) s.defined) :
    Defines (statements ss) (Stmt.definedAll ss) := by
  induction ss with
  | nil => exact defines_pure []
  | cons s ss ih =>
    have hrest := ih fun x hx => h x (List.mem_cons_of_mem s hx)
    exact (h s List.mem_cons_self).bind fun s => hrest.map (s :: ·)

/-- A statement enters the structures that it defines. -/
theorem defines_statement (inner : Bool) (s : Stmt) : Defines (statement inner s) s.defined := by
  induction s generalizing inner with
  | expr loc e => exact (defines_expr e).map _
  | decl loc d => exact (defines_declaration d).map _
  | block loc body ih =>
    have hbody := defines_statements_of fun s hs => ih s hs false
    unfold statement
    refine Defines.map ?_ _
    split
    · exact hbody
    · exact hbody.within .block
  | ifThen loc condition thenBranch ih =>
    have hthen := (ih true).within .block
    exact (defines_expr condition).behind fun condition => hthen.map _
  | ifElse loc condition thenBranch elseBranch iht ihe =>
    have hthen := (iht true).within .block
    have helse := (ihe true).within .block
    exact (defines_expr condition).behind fun condition =>
      hthen.bind fun thenBranch => helse.map _
  | forLoop loc start condition step body ih =>
    have hbody := (ih true).loopBody body
    exact Defines.within ((defines_loopStart start).bind fun start =>
      (defines_option condition).behind fun condition =>
        (defines_option step).behind fun step => hbody.map _) .loop
  | whileLoop loc condition body ih =>
    have hbody := (ih true).loopBody body
    exact Defines.within ((defines_expr condition).behind fun condition => hbody.map _) .loop
  | doWhile loc body condition ih =>
    have hbody := (ih true).loopBody body
    exact Defines.within ((defines_expr condition).behind fun condition =>
      hbody.map (Stmt.doWhile loc · condition)) .loop
  | switch loc selector bodyLoc body ih =>
    have hbody := (defines_statements_of fun s hs => ih s hs false).within .block
    exact (defines_expr selector).behind fun selector => hbody.map _
  | label loc value | result loc value => exact (defines_option value).map _
  | jump loc kind | empty loc => exact defines_pure _

theorem defines_function (f : Function) : Defines (function f) (Stmt.definedAll f.body) := by
  rw [function_eq]
  have hbody : Defines (statements f.body) (Stmt.definedAll f.body) :=
    defines_statements_of fun s _ => defines_statement false s
  exact (defines_prototype f.prototype true).behind fun p =>
    Defines.within ((defines_declareAll _).behind fun _ => hbody.map _) .function

/-! ### Shaders -/

theorem structNames_after_interfaceBlock (b : InterfaceBlock) (n : Names) :
    (after (interfaceBlock b) n).structNames = b.name :: n.structNames := by
  unfold after
  rw [run_interfaceBlock]
  exact (defines_declareAll _).known _

theorem structNames_after_topLevel (d : TopLevel) (n : Names) :
    (after (topLevel d) n).structNames = d.entered ++ n.structNames := by
  cases d with
  | precision p ty loc | layout q loc => rfl
  | globals d => exact (defines_declaration d).known n
  | struct d => exact (defines_structDef d).known n
  | block b => exact structNames_after_interfaceBlock b n
  | prototype p => exact (defines_prototype p false).known n
  | function f => exact (defines_function f).known n

/-- A structure whose name is known is declared twice, but a block is not. -/
theorem not_mem_structNames_of_distinct {d : TopLevel} (h : Distinct (topLevel d) n) {name : String}
    (hname : name ∈ d.defined) : name ∉ n.structNames := by
  cases d with
  | globals d => exact (defines_declaration d).fresh n h name hname
  | struct d => exact (defines_structDef d).fresh n h name hname
  | function f => exact (defines_function f).fresh n h name hname
  | precision | layout | block | prototype => cases hname

end Resolve

end GlslEs
