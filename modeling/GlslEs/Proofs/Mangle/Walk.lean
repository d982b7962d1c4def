import GlslEs.Mangle
import GlslEs.Proofs.Tree
import Mathlib.Data.List.Basic

/-!
# What a walk does

A walk numbers the symbols in the order of their declarations, whatever names it gives, and what it
declares in a scope of its own is forgotten behind it.  A declaration gets the name of its number.  What a
walk has to leave as it is can be read off the syntax: the structures it names, the built-in functions it
calls and the variables that are not declared in it.

* `Walking.Numbers`: the walk numbers symbols, puts some of them in scope and notices names that stay, none of
  which depends on the names it gives, and a declaration gets the name of its number.
* `Walking.numbers_stmt`, `Walking.numbers_function`: **the symbols of statements and functions.**
-/

namespace GlslEs

/-! ### The symbols there are -/

/-- The names of declared variables. -/
def Declaration.declared (d : Declaration) : List String := d.declarators.map (·.name)

/-- The names that the first part of a loop head declares. -/
def LoopStart.declared : LoopStart → List String
  | .decl _ d => d.declared
  | _ => []

namespace Stmt

mutual

/-- The names that are declared in a statement and below it, in order. -/
def declared : Stmt → List String
  | .decl _ d => d.declared
  | .block _ body | .switch _ _ _ body => declaredAll body
  | .ifThen _ _ thenBranch => declared thenBranch
  | .ifElse _ _ thenBranch elseBranch => declared thenBranch ++ declared elseBranch
  | .forLoop _ start _ _ body => start.declared ++ declared body
  | .whileLoop _ _ body | .doWhile _ body _ => declared body
  | .expr .. | .label .. | .result .. | .jump .. | .empty _ => []

/-- The names that are declared in several statements. -/
def declaredAll : List Stmt → List String
  | [] => []
  | s :: ss => declared s ++ declaredAll ss

end

end Stmt

/-- The names of parameters. -/
def Parameter.declared (xs : List Parameter) : List String := xs.filterMap (·.name)

/-- The names of the parameters and variables of a function, in order. -/
def Function.declared (f : Function) : List String :=
  Parameter.declared f.prototype.parameters ++ Stmt.declaredAll f.body

/-- The names of symbols from a number on, where they have one. -/
def Naming.given (ν : Naming) (id : Nat) : List String → List String
  | [] => []
  | name :: names => (ν.symbols.lookup id).getD name :: given ν (id + 1) names

theorem Naming.given_append (ν : Naming) (id : Nat) (xs ys : List String) :
    ν.given id (xs ++ ys) = ν.given id xs ++ ν.given (id + xs.length) ys := by
  induction xs generalizing id with
  | nil => rfl
  | cons x xs ih => simp [given, ih, Nat.add_assoc, Nat.add_comm 1]

/-! ### The names that stay -/

/-- The structure that a type names. -/
def Ty.structNames (ty : Ty) : List String :=
  match ty.base with
  | .struct name => [name]
  | _ => []

section

variable (functions : List String)

/-- The name of what is called, unless it is one of the functions. -/
def Callee.kept : Callee → List String
  | .user name => if name ∈ functions then [] else [name]
  | .builtin name => [name]
  | .constructor ty => ty.structNames

/-- The name at a node, unless it is one of the functions or in scope. -/
def Expr.ownKept (bound : List String) : Expr → List String
  | .var _ name => if name ∈ bound then [] else [name]
  | .call _ callee _ => callee.kept functions
  | _ => []

def Expr.kept (bound : List String) (e : Expr) : List String := e.nodes.flatMap (ownKept functions bound)

def Expr.kept? (bound : List String) (e : Option Expr) : List String := e.toList.flatMap (kept functions bound)

def ArrayLength.kept (bound : List String) : Option ArrayLength → List String
  | some (.sized e) => e.kept functions bound
  | _ => []

/-- The names that items keep where each one puts names in scope for those behind it. -/
def keptAlong {α : Type} (kept : List String → α → List String) (binds : α → List String) :
    List String → List α → List String
  | _, [] => []
  | bound, x :: xs => kept bound x ++ keptAlong kept binds (binds x ++ bound) xs

def Declarator.kept (bound : List String) (x : Declarator) : List String :=
  ArrayLength.kept functions bound x.array ++ Expr.kept? functions bound x.value

def Declaration.kept (bound : List String) (d : Declaration) : List String :=
  (d.struct.map (·.name)).toList ++ d.ty.structNames ++
    keptAlong (Declarator.kept functions) (fun x => [x.name]) bound d.declarators

def LoopStart.kept (bound : List String) : LoopStart → List String
  | .expr _ e => e.kept functions bound
  | .decl _ d => d.kept functions bound
  | _ => []

/-- What a statement puts in scope for those behind it. -/
def Stmt.binds : Stmt → List String
  | .decl _ d => d.declared
  | _ => []

mutual

def Stmt.kept (bound : List String) : Stmt → List String
  | .expr _ e => e.kept functions bound
  | .decl _ d => d.kept functions bound
  | .block _ body => Stmt.keptAll bound body
  | .ifThen _ condition thenBranch => condition.kept functions bound ++ Stmt.kept bound thenBranch
  | .ifElse _ condition thenBranch elseBranch =>
    condition.kept functions bound ++ (Stmt.kept bound thenBranch ++ Stmt.kept bound elseBranch)
  | .forLoop _ start condition step body =>
    start.kept functions bound ++ (Expr.kept? functions (start.declared ++ bound) condition ++
      (Expr.kept? functions (start.declared ++ bound) step ++ Stmt.kept (start.declared ++ bound) body))
  | .whileLoop _ condition body | .doWhile _ body condition =>
    condition.kept functions bound ++ Stmt.kept bound body
  | .switch _ selector _ body => selector.kept functions bound ++ Stmt.keptAll bound body
  | .label _ value | .result _ value => Expr.kept? functions bound value
  | .jump .. | .empty _ => []

def Stmt.keptAll (bound : List String) : List Stmt → List String
  | [] => []
  | s :: ss => Stmt.kept bound s ++ Stmt.keptAll (s.binds ++ bound) ss

end

def Parameter.kept (bound : List String) (x : Parameter) : List String :=
  x.ty.structNames ++ ArrayLength.kept functions bound x.array

/-- The names in a declaration at the top of a shader that a walk must leave as they are. -/
def TopLevel.kept : TopLevel → List String
  | .function f =>
    keptAlong (Parameter.kept functions) (·.name.toList) [] f.prototype.parameters ++
      Stmt.keptAll functions (Parameter.declared f.prototype.parameters) f.body
  | .globals d => d.declarators.flatMap (Declarator.kept functions [])
  | _ => []

end

/-! ### Names in scope -/

namespace Scopes

variable {α : Type}

/-- What is declared, the innermost declarations first. -/
def entries (s : Scopes α) : List (String × α) := (s.inner :: s.outer).flatten

theorem lookup_append (name : String) (ps qs : List (String × α)) :
    (ps ++ qs).lookup name = (ps.lookup name).or (qs.lookup name) := by
  induction ps with
  | nil => rfl
  | cons p ps ih =>
    rw [List.cons_append, List.lookup_cons, List.lookup_cons, ih]
    split <;> rfl

theorem find?_eq_lookup (s : Scopes α) (name : String) : s.find? name = s.entries.lookup name := by
  unfold find? entries
  generalize s.inner :: s.outer = frames
  induction frames with
  | nil => rfl
  | cons frame frames ih =>
    rw [List.findSome?_cons, List.flatten_cons, lookup_append, ← ih]
    cases frame.lookup name <;> rfl

@[simp] theorem entries_enter (s : Scopes α) : s.enter.entries = s.entries := rfl

@[simp] theorem entries_declare (s : Scopes α) (name : String) (a : α) :
    (s.declare name a).entries = (name, a) :: s.entries := rfl

end Scopes

/-- The names in scope. -/
def Walk.InScope (w : Walk) (bound : List String) : Prop := ∀ x, x ∈ w.scopes.entries.map (·.1) ↔ x ∈ bound

theorem Walk.InScope.find?_eq_none_iff {w : Walk} {bound : List String} (hw : w.InScope bound) (x : String) :
    w.scopes.find? x = none ↔ x ∉ bound := by
  rw [Scopes.find?_eq_lookup, List.lookup_eq_none_iff, ← hw x, List.mem_map]
  simp only [bne_iff_ne]
  constructor
  · rintro h ⟨p, hp, hname⟩
    exact h p hp hname.symm
  · exact fun h p hp hname => h ⟨p, hp, hname.symm⟩

namespace Mangle

theorem otherNames_append (scopes : LocalScopes) (next : Nat) (seen found : List Occurrence) :
    otherNames ⟨scopes, next, seen ++ found⟩ =
      otherNames ⟨scopes, next, seen⟩ ++ otherNames ⟨scopes, next, found⟩ :=
  List.filterMap_append

theorem otherNames_ofType (ty : Ty) : otherNames { seen := Occurrence.ofType ty } = ty.structNames := by
  unfold Occurrence.ofType Ty.structNames
  cases ty.base <;> rfl

theorem otherNames_ownOccurrences (functions : List String) {w : Walk} {bound : List String}
    (hw : w.InScope bound) (e : Expr) :
    otherNames { seen := e.ownOccurrences functions w.scopes } = e.ownKept functions bound := by
  cases e with
  | var note name =>
    have hnone := hw.find?_eq_none_iff name
    show otherNames { seen := [.ofVariable w.scopes name] } = if name ∈ bound then [] else [name]
    unfold Occurrence.ofVariable
    cases hfind : w.scopes.find? name with
    | none => rw [if_neg (hnone.mp hfind)]; rfl
    | some id =>
      have hmem : name ∈ bound := by
        by_contra hname
        rw [hnone.mpr hname] at hfind
        cases hfind
      rw [if_pos hmem]
      rfl
  | call note callee args =>
    cases callee with
    | builtin name => rfl
    | constructor ty => exact otherNames_ofType ty
    | user name =>
      show otherNames { seen := [if functions.contains name then .function name else .other name] } =
        if name ∈ functions then [] else [name]
      by_cases hname : name ∈ functions
      · simp [hname, otherNames]
      · simp [hname, otherNames]
  | _ => rfl

end Mangle

/-! ### Walks -/

namespace Walking

open Mangle

variable {α β : Type} {xs ys zs b c bound : List String} {v : α → List String} {u : β → List String}
  {k l : List String → List String → List String} {act : Walking α} {w : Walk}

/-- The walk numbers symbols with the names `xs`, puts the names `b` in scope and notices the names `k` as they
are, where functions and names in scope are given.  What it notices does not depend on the names it gives, and
these, which `v` finds behind `ys`, are the names of the numbers. -/
structure Numbers (ys : List String) (act : Walking α) (v : α → List String) (xs : List String)
    (k : List String → List String → List String) (b : List String) : Prop where
  next : ∀ plan w, (act plan w).2.next = w.next + xs.length
  scopes : ∀ plan w, ∃ ps : List (String × Nat), ps.map (·.1) = b.reverse ∧
    (act plan w).2.scopes = ⟨ps ++ w.scopes.inner, w.scopes.outer⟩
  same : ∀ plan w, (act plan w).2 = (act ⟨plan.functions, {}⟩ w).2
  given : ∀ plan w, v (act plan w).1 = ys ++ plan.naming.given w.next xs
  others : ∀ plan {w bound}, w.InScope bound → otherNames (act plan w).2 = otherNames w ++ k plan.functions bound

namespace Numbers

theorem inScope (hact : Numbers ys act v xs k b) (plan : WalkPlan) (h : w.InScope bound) :
    (act plan w).2.InScope (b ++ bound) := by
  intro x
  obtain ⟨ps, hps, hscopes⟩ := hact.scopes plan w
  have hentries : (act plan w).2.scopes.entries = ps ++ w.scopes.entries := by
    rw [hscopes]
    exact List.append_assoc ..
  rw [hentries, List.map_append, hps, List.mem_append, List.mem_append, List.mem_reverse, h x]

theorem pure (a : α) (h : v a = ys) : Numbers ys (Pure.pure a) v [] (fun _ _ => []) [] :=
  ⟨fun _ _ => rfl, fun _ _ => ⟨[], rfl, rfl⟩, fun _ _ => rfl, fun _ _ => h.trans (List.append_nil ys).symm,
    fun _ _ _ _ => (List.append_nil _).symm⟩

/-- One walk after another, which notices the same whatever the first one gives. -/
theorem bind {f : α → Walking β} {k' : List String → List String → List String} (hact : Numbers ys act v xs k b)
    (hf : ∀ a, Numbers (v a) (f a) u zs l c)
    (hk : ∀ fs bound, k' fs bound = k fs bound ++ l fs (b ++ bound))
    (hsame : ∀ a b plan w, (f a plan w).2 = (f b plan w).2) :
    Numbers ys (act >>= f) u (xs ++ zs) k' (b ++ c) where
  next plan w := by
    show ((f (act plan w).1) plan (act plan w).2).2.next = _
    rw [(hf _).next, hact.next, List.length_append, Nat.add_assoc]
  scopes plan w := by
    obtain ⟨ps, hps, hscopes⟩ := hact.scopes plan w
    obtain ⟨qs, hqs, hscopes'⟩ := (hf (act plan w).1).scopes plan (act plan w).2
    refine ⟨qs ++ ps, by rw [List.map_append, hps, hqs, List.reverse_append], ?_⟩
    rw [hscopes, ← List.append_assoc] at hscopes'
    exact hscopes'
  same plan w := by
    show ((f (act plan w).1) plan (act plan w).2).2 = _
    rw [hact.same, (hf _).same]
    exact hsame _ _ _ _
  given plan w := by
    show u ((f (act plan w).1) plan (act plan w).2).1 = _
    rw [(hf _).given, hact.given, hact.next, Naming.given_append, List.append_assoc]
  others plan w bound h := by
    show otherNames ((f (act plan w).1) plan (act plan w).2).2 = _
    rw [(hf _).others plan (hact.inScope plan h), hact.others plan h, hk, List.append_assoc]

theorem map (f : α → β) (hact : Numbers ys act v xs k b) (hf : ∀ a, u (f a) = v a) :
    Numbers ys (f <$> act) u xs k b :=
  ⟨hact.next, hact.scopes, hact.same, fun plan w => (hf _).trans (hact.given plan w), hact.others⟩

/-- What only notices something. -/
theorem noticing (found : List String → LocalScopes → List Occurrence)
    (h : ∀ plan w, (act plan w).2 = { w with seen := w.seen ++ found plan.functions w.scopes })
    (hfound : ∀ functions {w : Walk} {bound : List String}, w.InScope bound →
      otherNames { seen := found functions w.scopes } = k functions bound) :
    Numbers ys act (fun _ => ys) [] k [] where
  next plan w := by rw [h]; rfl
  scopes plan w := ⟨[], rfl, by rw [h]; rfl⟩
  same plan w := by rw [h, h]
  given _ _ := (List.append_nil ys).symm
  others plan w bound hw := by
    rw [h]
    exact (otherNames_append w.scopes w.next w.seen _).trans (congrArg _ (hfound plan.functions hw))

end Numbers

theorem numbers_expr (e : Expr) : Numbers ys (expr e) (fun _ => ys) [] (fun fs bound => e.kept fs bound) [] := by
  refine .noticing (e.occurrences · ·) (fun _ _ => rfl) fun functions w bound hw => ?_
  show ((e.nodes.flatMap _).filterMap _) = _
  rw [List.filterMap_flatMap]
  exact List.flatMap_congr fun x _ => otherNames_ownOccurrences functions hw x

theorem numbers_option (e : Option Expr) :
    Numbers ys (e.mapM expr) (fun _ => ys) [] (fun fs bound => Expr.kept? fs bound e) [] := by
  cases e with
  | none => exact .pure none rfl
  | some e =>
    simp only [Expr.kept?, Option.toList_some, List.flatMap_singleton]
    exact (numbers_expr e).map some fun _ => rfl

theorem numbers_array (array : Option ArrayLength) :
    Numbers ys (Walking.array array) (fun _ => ys) [] (fun fs bound => ArrayLength.kept fs bound array) [] := by
  cases array with
  | none => exact .pure none rfl
  | some length =>
    cases length with
    | unsized => exact .pure _ rfl
    | sized e => exact (numbers_expr e).map (fun e => some (ArrayLength.sized e)) fun _ => rfl

theorem numbers_notice {found : List Occurrence} {names : List String}
    (h : otherNames { seen := found } = names) :
    Numbers ys (notice found) (fun _ => ys) [] (fun _ _ => names) [] :=
  .noticing (fun _ _ => found) (fun _ _ => rfl) fun _ _ _ _ => h

theorem numbers_declare (name : String) :
    Numbers ys (declare name) (fun x => ys ++ [x]) [name] (fun _ _ => []) [name] :=
  ⟨fun _ _ => rfl, fun _ w => ⟨[(name, w.next)], rfl, rfl⟩, fun _ _ => rfl, fun _ _ => rfl,
    fun _ w _ _ => otherNames_append w.scopes w.next w.seen _⟩

theorem numbers_declarator (x : Declarator) :
    Numbers ys (declarator x) (fun x => ys ++ [x.name]) [x.name] (fun fs bound => x.kept fs bound) [x.name] :=
  (numbers_array x.array).bind (l := fun fs bound => Expr.kept? fs bound x.value) (fun length =>
    (numbers_option x.value).bind (fun value =>
      (numbers_declare x.name).map (fun name => { x with array := length, value, name }) fun _ => rfl)
      (fun _ _ => (List.append_nil _).symm) fun _ _ _ _ => rfl) (fun _ _ => rfl) fun _ _ _ _ => rfl

/-- Items one after the other. -/
theorem numbers_mapM {act : α → Walking β} {f : α → List String} {g : β → List String}
    {kept : List String → List String → α → List String} {binds : α → List String}
    (h : ∀ ys x, Numbers ys (act x) (fun y => ys ++ g y) (f x) (fun fs bound => kept fs bound x) (binds x))
    (items : List α) :
    Numbers ys (items.mapM act) (fun out => ys ++ out.flatMap g) (items.flatMap f)
      (fun fs bound => keptAlong (kept fs) binds bound items) (items.flatMap binds) := by
  induction items generalizing ys with
  | nil =>
    rw [List.mapM_nil]
    exact .pure [] (List.append_nil ys)
  | cons x items ih =>
    rw [List.mapM_cons]
    exact (h ys x).bind (fun y => ih.map (y :: ·) fun out => by simp) (fun _ _ => rfl) fun _ _ _ _ => rfl

theorem numbers_declaration (d : Declaration) :
    Numbers ys (declaration d) (fun d => ys ++ d.declared) d.declared (fun fs bound => d.kept fs bound)
      d.declared := by
  have hfound : otherNames
      { seen := (d.struct.map fun s => Occurrence.other s.name).toList ++ Occurrence.ofType d.ty } =
      (d.struct.map (·.name)).toList ++ d.ty.structNames := by
    refine (otherNames_append .empty 0 _ _).trans ?_
    rw [otherNames_ofType]
    cases d.struct <;> rfl
  simp only [Declaration.declared, List.map_eq_flatMap]
  exact (numbers_notice hfound).bind (fun _ => (numbers_mapM (fun _ => numbers_declarator) d.declarators).map
    (fun ds => { d with declarators := ds }) fun _ => rfl) (fun _ _ => rfl) fun _ _ _ _ => rfl

theorem numbers_loopStart (start : LoopStart) :
    Numbers ys (loopStart start) (fun start => ys ++ start.declared) start.declared
      (fun fs bound => start.kept fs bound) start.declared := by
  cases start with
  | absent | empty loc => exact .pure _ (List.append_nil ys)
  | expr loc e => exact (numbers_expr e).map _ fun _ => List.append_nil ys
  | decl loc d => exact (numbers_declaration d).map _ fun _ => rfl

/-- What is declared in a scope of its own is forgotten behind it. -/
theorem scopes_within (h : Numbers ys act v xs k b) (plan : WalkPlan) (w : Walk) :
    (within act plan w).2.scopes = w.scopes := by
  show (act plan { w with scopes := w.scopes.enter }).2.scopes.exit = w.scopes
  obtain ⟨ps, -, hscopes⟩ := h.scopes plan { w with scopes := w.scopes.enter }
  rw [hscopes]
  rfl

theorem numbers_within (h : Numbers ys act v xs k b) : Numbers ys (within act) v xs k [] where
  next plan w := h.next plan { w with scopes := w.scopes.enter }
  scopes plan w := ⟨[], rfl, scopes_within h plan w⟩
  same plan w := congrArg (fun w => { w with scopes := w.scopes.exit })
    (h.same plan { w with scopes := w.scopes.enter })
  given plan w := h.given plan { w with scopes := w.scopes.enter }
  others plan w _ hw := h.others plan (w := { w with scopes := w.scopes.enter }) hw

theorem numbers_stmts {ss : List Stmt} (h : ∀ s ∈ ss, ∀ {ys}, Numbers ys (stmt s) (fun s => ys ++ s.declared)
      s.declared (fun fs bound => s.kept fs bound) s.binds) :
    Numbers ys (stmts ss) (fun ss => ys ++ Stmt.declaredAll ss) (Stmt.declaredAll ss)
      (fun fs bound => Stmt.keptAll fs bound ss) (ss.flatMap Stmt.binds) := by
  induction ss generalizing ys with
  | nil => exact .pure [] (List.append_nil ys)
  | cons s ss ih =>
    rw [stmts]
    exact (h s List.mem_cons_self).bind (fun s => (ih fun x hx => h x (List.mem_cons_of_mem _ hx)).map (s :: ·)
      fun _ => (List.append_assoc ..).symm) (fun _ _ => rfl) fun _ _ _ _ => rfl

/-- **The symbols of a statement are the variables that are declared in it.** -/
theorem numbers_stmt (s : Stmt) :
    Numbers ys (stmt s) (fun s => ys ++ s.declared) s.declared (fun fs bound => s.kept fs bound) s.binds := by
  induction s generalizing ys with
  | expr loc e => exact (numbers_expr e).map _ fun _ => List.append_nil ys
  | decl loc d => exact (numbers_declaration d).map _ fun _ => rfl
  | block loc body ih => exact (numbers_within (numbers_stmts ih)).map _ fun _ => rfl
  | ifThen loc condition thenBranch ih =>
    exact (numbers_expr condition).bind (fun _ => (numbers_within ih).map _ fun _ => rfl)
      (fun _ _ => rfl) fun _ _ _ _ => rfl
  | ifElse loc condition thenBranch elseBranch iht ihe =>
    exact (numbers_expr condition).bind (fun _ => (numbers_within iht).bind (fun _ =>
      (numbers_within ihe).map _ fun _ => (List.append_assoc ..).symm) (fun _ _ => rfl) fun _ _ _ _ => rfl)
      (fun _ _ => rfl) fun _ _ _ _ => rfl
  | forLoop loc start condition step body ih =>
    exact numbers_within ((numbers_loopStart start).bind (fun _ => (numbers_option condition).bind
      (fun _ => (numbers_option step).bind (fun _ => ih.map _ fun _ => (List.append_assoc ..).symm)
        (fun _ _ => rfl) fun _ _ _ _ => rfl) (fun _ _ => rfl) fun _ _ _ _ => rfl) (fun _ _ => rfl) fun _ _ _ _ => rfl)
  | whileLoop loc condition body ih =>
    exact numbers_within ((numbers_expr condition).bind (fun _ => ih.map _ fun _ => rfl)
      (fun _ _ => rfl) fun _ _ _ _ => rfl)
  | doWhile loc body condition ih =>
    exact numbers_within ((numbers_expr condition).bind (fun condition =>
      ih.map (fun body => Stmt.doWhile loc body condition) fun _ => rfl) (fun _ _ => rfl) fun _ _ _ _ => rfl)
  | switch loc selector bodyLoc body ih =>
    exact (numbers_expr selector).bind (fun _ => (numbers_within (numbers_stmts ih)).map _ fun _ => rfl)
      (fun _ _ => rfl) fun _ _ _ _ => rfl
  | label loc value | result loc value => exact (numbers_option value).map _ fun _ => List.append_nil ys
  | jump loc kind | empty loc => exact .pure _ (List.append_nil ys)

/-- No statement but a declaration declares anything in the scope in which it stands. -/
theorem scopes_stmt {s : Stmt} (h : ∀ loc d, s ≠ .decl loc d) (plan : WalkPlan) (w : Walk) :
    (stmt s plan w).2.scopes = w.scopes := by
  obtain ⟨ps, hps, hscopes⟩ := (@numbers_stmt [] s).scopes plan w
  have hbinds : s.binds = [] := by
    cases s with
    | decl loc d => exact absurd rfl (h loc d)
    | _ => rfl
  rw [hbinds, List.reverse_nil, List.map_eq_nil_iff] at hps
  rw [hscopes, hps]
  rfl

theorem numbers_parameter (x : Parameter) :
    Numbers ys (parameter x) (fun x => ys ++ x.name.toList) x.name.toList (fun fs bound => x.kept fs bound)
      x.name.toList := by
  have hname : ∀ ys, Numbers ys (x.name.mapM declare) (fun name => ys ++ name.toList) x.name.toList
      (fun _ _ => []) x.name.toList := by
    intro ys
    cases x.name with
    | none => exact .pure none (List.append_nil ys)
    | some name => exact (numbers_declare name).map some fun _ => rfl
  have h : Numbers ys (parameter x) (fun x => ys ++ x.name.toList) ([] ++ ([] ++ x.name.toList))
      (fun fs bound => x.kept fs bound) ([] ++ ([] ++ x.name.toList)) :=
    (numbers_notice (otherNames_ofType x.ty)).bind (l := fun fs bound => ArrayLength.kept fs bound x.array)
      (fun _ => (numbers_array x.array).bind (fun length =>
        (hname ys).map (fun name => ({ x with array := length, name } : Parameter)) fun _ => rfl)
        (fun _ _ => (List.append_nil _).symm) fun _ _ _ _ => rfl) (fun _ _ => rfl) fun _ _ _ _ => rfl
  exact h

theorem numbers_parameters (xs : List Parameter) :
    Numbers ys (xs.mapM parameter) (fun xs => ys ++ Parameter.declared xs) (Parameter.declared xs)
      (fun fs bound => keptAlong (Parameter.kept fs) (·.name.toList) bound xs) (Parameter.declared xs) := by
  simp only [Parameter.declared, List.filterMap_eq_flatMap_toList]
  exact numbers_mapM (fun _ => numbers_parameter) xs

/-- **The symbols of a function are its parameters with a name and its variables.** -/
theorem numbers_function (f : Function) :
    Numbers [] (function f) Function.declared f.declared
      (fun fs bound => keptAlong (Parameter.kept fs) (·.name.toList) bound f.prototype.parameters ++
        Stmt.keptAll fs (Parameter.declared f.prototype.parameters ++ bound) f.body)
      (Parameter.declared f.prototype.parameters ++ f.body.flatMap Stmt.binds) := by
  have hread : Numbers [] (read : Walking WalkPlan) (fun _ => []) [] (fun _ _ => []) [] :=
    ⟨fun _ _ => rfl, fun _ _ => ⟨[], rfl, rfl⟩, fun _ _ => rfl, fun _ _ => rfl,
      fun _ _ _ _ => (List.append_nil _).symm⟩
  exact hread.bind (fun plan => (numbers_parameters f.prototype.parameters).bind (fun parameters =>
    (numbers_stmts fun s _ => numbers_stmt s).map (fun body => { f with
      prototype := { f.prototype with name := plan.naming.function f.prototype.name, parameters }
      body }) fun _ => rfl) (fun _ _ => rfl) fun _ _ _ _ => rfl) (fun _ _ => rfl) fun _ _ _ _ => rfl

end Walking

end GlslEs
