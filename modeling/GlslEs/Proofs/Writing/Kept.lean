import GlslEs.Proofs.Mangle.Rename
import GlslEs.Proofs.Mangle.ShortName
import GlslEs.Proofs.Mangle.Walk
import GlslEs.Proofs.Minify.Shape
import GlslEs.Proofs.Optimize.Fixpoint
import GlslEs.Proofs.Writing.Read

/-!
# Passes keep words

Optimizing and shortening put parts of a tree together anew and never make a list of items empty; mangling
puts in names that are words.

* `Optimize.worded_stmt`, `Minify.worded_stmt`, `Walking.gives_worded_stmt`: statements.
* `Shader.Worded.optimized`, `Shader.Worded.minified`, `Shader.Worded.mangled`: **a shader made of words
  stays one**.
-/

namespace GlslEs

/-! ### Optimizing -/

theorem Expr.Worded.mapVisited {f : Expr → Expr} {e : Expr} (h : e.Worded)
    (hf : ∀ c ∈ e.visited, (f c).Worded) : (e.mapVisited f).Worded := by
  obtain ⟨hnode, hchildren⟩ := worded_iff.mp h
  have hmap {es : List Expr} (hes : ∀ c ∈ es, (f c).Worded) : ∀ c ∈ es.map f, c.Worded := by
    simpa using hes
  cases e with
  | lit note value | var note name => exact h
  | call note callee args =>
    cases callee with
    | builtin name => exact h
    | user name | constructor ty => exact worded_iff.mpr ⟨hnode, hmap hf⟩
  | seq note items => exact worded_iff.mpr ⟨fun hnil => hnode (List.map_eq_nil_iff.mp hnil), hmap hf⟩
  | _ => exact worded_iff.mpr ⟨hnode, by simpa [visited, children, Expr.mapVisited] using hf⟩

namespace Optimize

variable {rules : List Rule} {ss : List Stmt}

theorem preserves_worded (rules : List Rule) : Preserves rules Expr.Worded fun _ _ => True where
  refl _ := trivial
  trans _ _ := trivial
  turns {_ e'} h hturns := by
    refine ⟨hturns.forall_nodes h fun hnew => ?_, trivial⟩
    cases e' with
    | unary | binary | ternary => trivial
    | _ => cases hnew
  child {e _} h hc := h.child (e.visited_subset_children hc)
  visited h hf := ⟨h.mapVisited fun c hc => (hf c hc).1, trivial⟩

theorem worded_expr {e : Expr} (h : e.Worded) : (expr rules e).value.Worded := ((preserves_worded rules).expr h).1

theorem worded_option {x : Option Expr} (h : ∀ e ∈ x, e.Worded) : ∀ e ∈ (expr? rules x).value, e.Worded := by
  cases x with
  | none => exact h
  | some e => exact fun _ he => Option.mem_some_iff.mp he ▸ worded_expr (h e rfl)

theorem worded_declaration {d : Declaration} (h : d.Worded false Expr.Worded) :
    (declaration rules d).value.Worded false Expr.Worded := by
  have hvalue : (declaration rules d).value.declarators =
      d.declarators.map fun x => { x with value := (expr? rules x.value).value } := Logged.value_mapM _ _
  refine ⟨h.layout, h.struct, h.ty, ?_⟩
  rw [hvalue]
  simp only [List.mem_map]
  rintro _ ⟨x, hx, rfl⟩
  have hx := h.declarators x hx
  exact ⟨hx.name, hx.array, worded_option hx.value⟩

/-- What stands as a statement is kept or dropped. -/
theorem value_standing {α : Type} (e : Expr) (keep : Expr → α) (drop : α) :
    (standing rules e keep drop).value = drop ∨
      (standing rules e keep drop).value = keep (expr rules e).value := by
  unfold standing
  rw [Logged.value_bind]
  split
  · exact .inl rfl
  · exact .inr rfl

theorem worded_loopStart {start : LoopStart}
    (h : start.Holds Expr.Worded (Declaration.Worded false Expr.Worded)) :
    (loopStart rules start).value.Holds Expr.Worded (Declaration.Worded false Expr.Worded) := by
  cases h with
  | absent => exact .absent
  | empty => exact .empty
  | @expr loc e he =>
    rw [loopStart]
    rcases value_standing e (LoopStart.expr loc) (.empty loc) with hvalue | hvalue
    · rw [hvalue]
      exact .empty
    · rw [hvalue]
      exact .expr (worded_expr he)
  | decl hd => exact .decl (worded_declaration hd)

theorem worded_stmts (h : ∀ s ∈ ss, (stmt rules s).value.Worded false Expr.Worded) :
    ∀ s ∈ (stmts rules ss).value, s.Worded false Expr.Worded := by
  rw [stmts_eq_mapM, Logged.value_mapM]
  simpa using h

theorem worded_dropEmpty (h : ∀ s ∈ ss, s.Worded false Expr.Worded) :
    ∀ s ∈ (dropEmpty ss).value, s.Worded false Expr.Worded :=
  fun s hs => h s (List.mem_of_mem_filter hs)

/-- A pass over a statement keeps words. -/
theorem worded_stmt {s : Stmt} (h : s.Worded false Expr.Worded) :
    (stmt rules s).value.Worded false Expr.Worded := by
  induction h with
  | @expr loc e he =>
    rw [stmt]
    rcases value_standing e (Stmt.expr loc) (.empty loc) with hvalue | hvalue
    · rw [hvalue]
      exact .empty
    · rw [hvalue]
      exact .expr (worded_expr he)
  | decl hd => exact .decl (worded_declaration hd)
  | block _ ih => exact .block (worded_dropEmpty (worded_stmts ih))
  | ifThen hc _ ih => exact .ifThen (worded_expr hc) ih
  | ifElse hc _ _ iht ihe => exact .ifElse (worded_expr hc) iht ihe
  | forLoop hstart hc hs _ ih =>
    exact .forLoop (worded_loopStart hstart) (worded_option hc) (worded_option hs) ih
  | whileLoop hc _ ih => exact .whileLoop (worded_expr hc) ih
  | doWhile _ hc ih => exact .doWhile ih (worded_expr hc)
  | switch hs _ ih => exact .switch (worded_expr hs) (worded_stmts ih)
  | label hv => exact .label hv
  | result hv => exact .result (worded_option hv)
  | jump => exact .jump
  | empty => exact .empty

theorem worded_topLevel {d : TopLevel} (h : d.Worded false Expr.Worded) :
    (topLevel rules d).value.Worded false Expr.Worded := by
  cases d with
  | globals d => exact worded_declaration h
  | function f => exact ⟨h.1, worded_dropEmpty (worded_stmts fun s hs => worded_stmt (h.2 s hs))⟩
  | _ => exact h

end Optimize

/-! ### Shortening -/

namespace Minify

variable {es : List Expr} {s : Stmt}

theorem worded_items {e : Expr} (h : e.Worded) : items e ≠ [] ∧ ∀ x ∈ items e, x.Worded := by
  cases e with
  | seq note exprs =>
    obtain ⟨hne, hchildren⟩ := Expr.worded_iff.mp h
    exact ⟨hne, hchildren⟩
  | _ => exact ⟨List.cons_ne_nil _ _, fun x hx => List.mem_singleton.mp hx ▸ h⟩

/-- Joining leaves no empty list of items. -/
theorem worded_joined (hne : es ≠ []) (h : ∀ e ∈ es, e.Worded) : (joined es).Worded := by
  unfold joined
  split
  · rename_i e
    exact h e List.mem_cons_self
  · refine Expr.worded_iff.mpr ⟨?_, ?_⟩
    · obtain ⟨e, es, rfl⟩ := List.exists_cons_of_ne_nil hne
      have hitems := (worded_items (h e List.mem_cons_self)).1
      show (e :: es).flatMap items ≠ []
      simp [hitems]
    · show ∀ c ∈ es.flatMap items, c.Worded
      simp only [List.mem_flatMap]
      rintro c ⟨e, he, hc⟩
      exact (worded_items (h e he)).2 c hc

theorem worded_soleItem? {e : Expr} (h : s.Worded false Expr.Worded) (hitem : soleItem? s = some e) :
    e.Worded := by
  have hexpr {loc : Location} (h : (Stmt.expr loc e).Worded false Expr.Worded) : e.Worded := by
    cases h with
    | expr he => exact he
  obtain ⟨-, ⟨loc, rfl⟩ | ⟨braces, loc, rfl⟩⟩ := soleItem?_eq_some hitem
  · exact hexpr h
  · cases h with
    | block hbody => exact hexpr (hbody _ List.mem_cons_self)

theorem worded_ternary {note : Note} {c a b : Expr} (hc : c.Worded) (ha : a.Worded) (hb : b.Worded) :
    (Expr.ternary note c a b).Worded :=
  Expr.worded_iff.mpr ⟨trivial, by simp [Expr.children, hc, ha, hb]⟩

theorem worded_foldIf? {s' : Stmt} (h : s.Worded false Expr.Worded) (hfold : foldIf? s = some s') :
    s'.Worded false Expr.Worded := by
  obtain ⟨loc, condition, thenBranch, elseBranch, a, b, rfl, ha, hb, -, rfl⟩ |
    ⟨loc, condition, thenBranch, e, rfl, he, -, rfl⟩ := foldIf?_eq_some hfold
  · cases h with
    | ifElse hc ht he => exact .expr (worded_ternary hc (worded_soleItem? ht ha) (worded_soleItem? he hb))
  · cases h with
    | ifThen hc ht =>
      exact .expr (Expr.worded_iff.mpr ⟨trivial, by simp [Expr.children, hc, worded_soleItem? ht he]⟩)

theorem worded_hoist? {s' : Stmt} (h : s.Worded false Expr.Worded) (hhoist : hoist? s = some s') :
    s'.Worded false Expr.Worded := by
  obtain ⟨loc, note, c, first, second, op, target, target', value, value', rfl, -, -, -, rfl⟩ := hoist?_eq_some hhoist
  cases h with
  | expr he =>
    have hassign := he.child (c := .assign first op target value) (by simp [Expr.children])
    have hassign' := he.child (c := .assign second op target' value') (by simp [Expr.children])
    have htarget : target.Worded := hassign.child (by simp [Expr.children])
    have hchoice : (Expr.ternary ⟨value.ty, .empty, note.loc⟩ c value value').Worded :=
      worded_ternary (he.child (by simp [Expr.children])) (hassign.child (by simp [Expr.children]))
        (hassign'.child (by simp [Expr.children]))
    exact .expr (Expr.worded_iff.mpr ⟨trivial, by simp [Expr.children, htarget, hchoice]⟩)

theorem worded_absorb? {pending : List Expr} {s' : Stmt} (hpending : ∀ e ∈ pending, e.Worded)
    (h : s.Worded false Expr.Worded) (habsorb : absorb? pending s = some s') : s'.Worded false Expr.Worded := by
  have hjoined {e : Expr} (he : e.Worded) : (joined (pending ++ [e])).Worded :=
    worded_joined (by simp) (by simpa [or_imp, forall_and] using ⟨hpending, he⟩)
  obtain ⟨loc, e, rfl, -, rfl⟩ | ⟨loc, c, t, rfl, rfl⟩ | ⟨loc, c, t, f, rfl, rfl⟩ := absorb?_eq_some habsorb
  · cases h with
    | result hv => exact .result fun _ he => Option.mem_some_iff.mp he ▸ hjoined (hv e rfl)
  · cases h with
    | ifThen hc ht => exact .ifThen (hjoined hc) ht
  · cases h with
    | ifElse hc ht hf => exact .ifElse (hjoined hc) ht hf

theorem worded_exprStmts :
    (∀ s ∈ es.map exprStmt, s.Worded false Expr.Worded) ↔ ∀ e ∈ es, e.Worded := by
  rw [List.forall_mem_map]
  exact forall₂_congr fun e _ => ⟨fun h => by cases h with | expr he => exact he, .expr⟩

theorem joins_worded : Joins fun as bs =>
    (∀ s ∈ as, s.Worded false Expr.Worded) → ∀ s ∈ bs, s.Worded false Expr.Worded where
  refl _ h := h
  trans h h' hs := h' (h hs)
  append h h' hs := by
    rw [List.forall_mem_append] at hs ⊢
    exact ⟨h hs.1, h' hs.2⟩
  item loc e h := by
    rw [List.forall_mem_singleton] at h ⊢
    cases h with
    | expr he => exact .expr he
  foldIf hs h := List.forall_mem_singleton.mpr (worded_foldIf? (List.forall_mem_singleton.mp h) hs)
  flushed hne h := List.forall_mem_singleton.mpr (.expr (worded_joined hne (worded_exprStmts.mp h)))
  absorb hs h := by
    rw [List.forall_mem_append, worded_exprStmts, List.forall_mem_singleton] at h
    exact List.forall_mem_singleton.mpr (worded_absorb? h.1 h.2 hs)

theorem worded_unbraced (h : s.Worded false Expr.Worded) : (unbraced s).value.Worded false Expr.Worded := by
  rcases unbraced_eq s with heq | ⟨loc, inner, rfl, heq, -⟩
  · rw [heq]
    exact h
  · rw [heq]
    cases h with
    | block hbody => exact hbody _ List.mem_cons_self

theorem worded_body {ss : List Stmt} (h : ∀ s ∈ ss, s.Worded false Expr.Worded)
    (hss : ∀ s ∈ ss, (stmt s).value.Worded false Expr.Worded) :
    ∀ s ∈ (body ss).value, s.Worded false Expr.Worded :=
  joins_worded.body (fun s hs _ => List.forall_mem_singleton.mpr (hss s hs)) (fun _ _ => joins_worded.folded
    fun _ hs' h => List.forall_mem_singleton.mpr (worded_hoist? (List.forall_mem_singleton.mp h) hs')) h

/-- Shortening a statement keeps words. -/
theorem worded_stmt (h : s.Worded false Expr.Worded) : (stmt s).value.Worded false Expr.Worded := by
  induction h with
  | expr he => exact .expr he
  | decl hd => exact .decl hd
  | block hbody ih => exact .block (worded_body hbody ih)
  | ifThen hc _ ih => exact .ifThen hc (worded_unbraced ih)
  | ifElse hc _ _ iht ihe => exact .ifElse hc (worded_unbraced iht) (worded_unbraced ihe)
  | forLoop hstart hc hs _ ih => exact .forLoop hstart hc hs (worded_unbraced ih)
  | whileLoop hc _ ih => exact .whileLoop hc (worded_unbraced ih)
  | doWhile _ hc ih => exact .doWhile (worded_unbraced ih) hc
  | switch hs hbody ih => exact .switch hs (worded_body hbody ih)
  | label hv => exact .label hv
  | result hv => exact .result hv
  | jump => exact .jump
  | empty => exact .empty

end Minify

/-! ### Mangling -/

namespace ShortName

theorem isNameChar_of_mem_tail (n : Nat) : ∀ c ∈ tail n, Text.isNameChar c = true := by
  have hall : nameChars.all Text.isNameChar = true := by decide
  induction n using Nat.strong_induction_on with
  | _ n ih =>
    cases n with
    | zero => simp [tail_zero]
    | succ n =>
      rw [tail_succ, List.forall_mem_cons]
      refine ⟨?_, ih (n / 63) (by omega)⟩
      have hlt : n % 63 < nameChars.length := by
        rw [length_nameChars]
        exact Nat.mod_lt n (by decide)
      rw [List.getD_eq_getElem _ _ hlt]
      exact List.all_eq_true.mp hall _ (List.getElem_mem hlt)

theorem wordlike_nth (n : Nat) : Lexer.Wordlike false (nth n) := by
  refine ⟨⟨letters.getD (n % 52) '_', tail (n / 52), String.toList_ofList, ?_, ?_⟩, fun h => by cases h⟩
  · have hall : letters.all Text.isLetter = true := by decide
    exact List.all_eq_true.mp hall _ (letter_mem (Nat.mod_lt n (by decide)))
  · exact List.all_eq_true.mpr (isNameChar_of_mem_tail (n / 52))

theorem wordlike_assign {taken : List String} {uses : List Nat} :
    ∀ p ∈ assign taken uses, Lexer.Wordlike false p.2 := by
  intro p hp
  obtain ⟨-, k, -, hname⟩ := mem_allot hp
  rw [hname]
  exact wordlike_nth k

end ShortName

/-- All new names are words. -/
structure Naming.Worded (ν : Naming) : Prop where
  symbols : ∀ p ∈ ν.symbols, Lexer.Wordlike false p.2
  functions : ∀ p ∈ ν.functions, Lexer.Wordlike false p.2

/-- A name that is looked up is a word, and so is the one that stays where there is none. -/
theorem wordlike_lookup {α : Type} [BEq α] [LawfulBEq α] {ps : List (α × String)}
    (h : ∀ p ∈ ps, Lexer.Wordlike false p.2) {name : String} (hname : Lexer.Wordlike false name) (a : α) :
    Lexer.Wordlike false ((ps.lookup a).getD name) := by
  cases hlookup : ps.lookup a with
  | none => exact hname
  | some new => exact h _ (ShortName.mem_of_lookup hlookup)

namespace Expr

variable {ν : Naming} {scopes : LocalScopes}

theorem NodeWorded.rename {e : Expr} (h : e.NodeWorded) (hν : ν.Worded) : (e.rename ν scopes).NodeWorded := by
  cases e with
  | var note name =>
    show Lexer.Wordlike false (ν.variable_ scopes name)
    unfold Naming.variable_
    cases scopes.find? name with
    | none => exact h
    | some id => exact wordlike_lookup hν.symbols h id
  | call note callee args =>
    cases callee with
    | user name => exact wordlike_lookup hν.functions h name
    | builtin name | constructor ty => exact h
  | seq note exprs =>
    rw [Expr.rename, renameAll_eq_map]
    exact fun hnil => h (List.map_eq_nil_iff.mp hnil)
  | _ => exact h

theorem Worded.rename {e : Expr} (h : e.Worded) (hν : ν.Worded) : (e.rename ν scopes).Worded := by
  intro x hx
  rw [nodes_rename] at hx
  obtain ⟨y, hy, rfl⟩ := List.mem_map.mp hx
  exact (h y hy).rename hν

end Expr

namespace Walking

variable {α β : Type} {plan : WalkPlan}

/-- Wherever it starts, the walk gives a result with the property. -/
def Gives (plan : WalkPlan) (act : Walking α) (Q : α → Prop) : Prop := ∀ w, Q (act plan w).1

namespace Gives

variable {act : Walking α} {P : α → Prop} {f : α → Walking β} {Q : β → Prop}

theorem pure {a : α} (h : P a) : Gives plan (Pure.pure a) P := fun _ => h

theorem bind (hact : Gives plan act P) (hf : ∀ a, P a → Gives plan (f a) Q) :
    Gives plan (act >>= f) Q := fun w => hf _ (hact w) _

theorem any (act : Walking α) : Gives plan act fun _ => True := fun _ => trivial

theorem map {f : α → β} (hact : Gives plan act P) (hf : ∀ a, P a → Q (f a)) :
    Gives plan (f <$> act) Q := fun w => hf _ (hact w)

theorem within (hact : Gives plan act P) : Gives plan (within act) P :=
  (any _).bind fun _ _ => hact.bind fun _ h => (any _).bind fun _ _ => .pure h

theorem mapM {xs : List α} (h : ∀ x ∈ xs, P x) (hf : ∀ x, P x → Gives plan (f x) Q) :
    Gives plan (xs.mapM f) fun ys => ∀ y ∈ ys, Q y := by
  induction xs with
  | nil =>
    rw [List.mapM_nil]
    exact .pure (by simp)
  | cons x xs ih =>
    rw [List.mapM_cons]
    refine (hf x (h x List.mem_cons_self)).bind fun y hy => ?_
    refine (ih fun z hz => h z (List.mem_cons_of_mem x hz)).bind fun ys hys => .pure ?_
    exact List.forall_mem_cons.mpr ⟨hy, hys⟩

theorem optionMapM {x : Option α}
    (h : ∀ a ∈ x, P a) (hf : ∀ a, P a → Gives plan (f a) Q) : Gives plan (x.mapM f) fun y => ∀ b ∈ y, Q b := by
  cases x with
  | none => exact .pure (by simp)
  | some a => exact (hf a (h a rfl)).map fun b hb _ hmem => Option.mem_some_iff.mp hmem ▸ hb

end Gives

section

variable (hplan : plan.naming.Worded) {d : Declaration}

include hplan

theorem gives_worded_expr {e : Expr} (h : e.Worded) : Gives plan (expr e) Expr.Worded := fun _ => h.rename hplan

theorem gives_worded_option {x : Option Expr} (h : ∀ e ∈ x, e.Worded) :
    Gives plan (x.mapM expr) fun y => ∀ e ∈ y, e.Worded :=
  Gives.optionMapM h fun _ => gives_worded_expr hplan

theorem gives_worded_array {array : Option ArrayLength} (h : ∀ a ∈ array, a.Worded Expr.Worded) :
    Gives plan (Walking.array array) fun array' =>
      (∀ a ∈ array', a.Worded Expr.Worded) ∧ array'.isSome = array.isSome := by
  cases array with
  | none => exact .pure ⟨h, rfl⟩
  | some length =>
    cases length with
    | unsized => exact .pure ⟨h, rfl⟩
    | sized e =>
      exact (gives_worded_expr hplan (h _ rfl)).bind fun e' he' =>
        .pure ⟨fun _ ha => Option.mem_some_iff.mp ha ▸ he', rfl⟩

theorem gives_worded_declare {name : String} (h : Lexer.Wordlike false name) :
    Gives plan (declare name) (Lexer.Wordlike false) := fun w => wordlike_lookup hplan.symbols h w.next

theorem gives_worded_declarator {x : Declarator} (h : x.Worded false Expr.Worded) :
    Gives plan (declarator x) (Declarator.Worded false Expr.Worded) :=
  (gives_worded_array hplan h.array).bind fun _ harray => (gives_worded_option hplan h.value).bind fun _ hvalue =>
    (gives_worded_declare hplan h.name).bind fun _ hname => .pure ⟨hname, harray.1, hvalue⟩

theorem gives_worded_declaration (h : d.Worded false Expr.Worded) :
    Gives plan (declaration d) (Declaration.Worded false Expr.Worded) :=
  (Gives.any _).bind fun _ _ => (Gives.mapM h.declarators fun _ => gives_worded_declarator hplan).bind fun _ hds =>
    .pure ⟨h.layout, h.struct, h.ty, hds⟩

theorem gives_worded_globalDeclaration (h : d.Worded false Expr.Worded) :
    Gives plan (globalDeclaration d) (Declaration.Worded false Expr.Worded) := by
  have hdeclarators : Gives plan (d.declarators.mapM fun x => do
      let length ← Walking.array x.array
      let value ← x.value.mapM expr
      return { x with array := length, value }) fun xs => ∀ x ∈ xs, x.Worded false Expr.Worded :=
    Gives.mapM h.declarators fun x hx => (gives_worded_array hplan hx.array).bind fun _ harray =>
      (gives_worded_option hplan hx.value).bind fun _ hvalue => .pure ⟨hx.name, harray.1, hvalue⟩
  exact hdeclarators.bind fun _ hds => .pure ⟨h.layout, h.struct, h.ty, hds⟩

theorem gives_worded_loopStart {start : LoopStart}
    (h : start.Holds Expr.Worded (Declaration.Worded false Expr.Worded)) :
    Gives plan (loopStart start) (LoopStart.Holds Expr.Worded (Declaration.Worded false Expr.Worded)) := by
  cases h with
  | absent => exact .pure .absent
  | empty => exact .pure .empty
  | expr he => exact (gives_worded_expr hplan he).map fun _ he => .expr he
  | decl hd => exact (gives_worded_declaration hplan hd).map fun _ hd => .decl hd

omit hplan in
theorem gives_worded_stmts {ss : List Stmt} (h : ∀ s ∈ ss, Gives plan (stmt s) (Stmt.Worded false Expr.Worded)) :
    Gives plan (stmts ss) fun ss' => ∀ s ∈ ss', s.Worded false Expr.Worded := by
  induction ss with
  | nil => exact .pure (by simp)
  | cons s ss ih =>
    refine (h s List.mem_cons_self).bind fun s' hs => ?_
    refine (ih fun t ht => h t (List.mem_cons_of_mem s ht)).map fun ss' hss => ?_
    exact List.forall_mem_cons.mpr ⟨hs, hss⟩

/-- A walk over a statement keeps words. -/
theorem gives_worded_stmt {s : Stmt} (h : s.Worded false Expr.Worded) :
    Gives plan (stmt s) (Stmt.Worded false Expr.Worded) := by
  induction h with
  | expr he => exact (gives_worded_expr hplan he).map fun _ he => .expr he
  | decl hd => exact (gives_worded_declaration hplan hd).map fun _ hd => .decl hd
  | block _ ih => exact (gives_worded_stmts ih).within.map fun _ h => .block h
  | ifThen hc _ ih => exact (gives_worded_expr hplan hc).bind fun _ hc => ih.within.map fun _ ht => .ifThen hc ht
  | ifElse hc _ _ iht ihe =>
    exact (gives_worded_expr hplan hc).bind fun _ hc => iht.within.bind fun _ ht =>
      ihe.within.map fun _ he => .ifElse hc ht he
  | forLoop hstart hc hs _ ih =>
    exact Gives.within <| (gives_worded_loopStart hplan hstart).bind fun _ hstart =>
      (gives_worded_option hplan hc).bind fun _ hc => (gives_worded_option hplan hs).bind fun _ hs =>
        ih.map fun _ hb => .forLoop hstart hc hs hb
  | whileLoop hc _ ih =>
    exact Gives.within <| (gives_worded_expr hplan hc).bind fun _ hc => ih.map fun _ hb => .whileLoop hc hb
  | doWhile _ hc ih =>
    exact Gives.within <| (gives_worded_expr hplan hc).bind fun _ hc => ih.bind fun _ hb => .pure (.doWhile hb hc)
  | switch hs _ ih =>
    exact (gives_worded_expr hplan hs).bind fun _ hs => (gives_worded_stmts ih).within.map fun _ hb => .switch hs hb
  | label hv => exact (gives_worded_option hplan hv).map fun _ hv => .label hv
  | result hv => exact (gives_worded_option hplan hv).map fun _ hv => .result hv
  | jump => exact .pure .jump
  | empty => exact .pure .empty

theorem gives_worded_function {f : Function} (hp : f.prototype.Worded false Expr.Worded)
    (hbody : ∀ s ∈ f.body, s.Worded false Expr.Worded) :
    Gives plan (function f) fun f' =>
      f'.prototype.Worded false Expr.Worded ∧ ∀ s ∈ f'.body, s.Worded false Expr.Worded := by
  have hparameter : ∀ x : Parameter, x.Worded false Expr.Worded →
      Gives plan (parameter x) (Parameter.Worded false Expr.Worded) := fun x hx =>
    (Gives.any _).bind fun _ _ => (gives_worded_array hplan hx.array).bind fun _ harray =>
      (Gives.optionMapM hx.name fun _ => gives_worded_declare hplan).bind fun _ hname =>
        .pure ⟨hname, hx.ty.imp_right (And.imp_right (And.imp_right harray.2.trans)), harray.1⟩
  have hname : Lexer.Wordlike false (plan.naming.function f.prototype.name) :=
    wordlike_lookup hplan.functions hp.name f.prototype.name
  have hread : Gives plan (fun plan w => (plan, w) : Walking WalkPlan) (· = plan) := fun _ => rfl
  exact hread.bind fun _ hplan' => (Gives.mapM hp.parameters hparameter).bind fun xs hxs =>
    (gives_worded_stmts fun s hs => gives_worded_stmt hplan (hbody s hs)).bind fun body hbody =>
      .pure ⟨⟨hplan' ▸ hname, hp.result, hxs⟩, hbody⟩

end

end Walking

namespace Mangle

theorem wordlike_functionNaming (taken functions : List String) (walks : List Walk) :
    ∀ p ∈ functionNaming taken functions walks, Lexer.Wordlike false p.2 := by
  intro p hp
  obtain ⟨⟨position, name⟩, hmem, hmap⟩ := List.mem_filterMap.mp hp
  obtain ⟨f, -, rfl⟩ := Option.map_eq_some_iff.mp hmap
  exact ShortName.wordlike_assign _ hmem

theorem worded_renamed {functions : List String} {naming : List (String × String)} {taken : List String} {w : Walk}
    (hnaming : ∀ p ∈ naming, Lexer.Wordlike false p.2) {d : TopLevel} (h : d.Worded false Expr.Worded) :
    (renamed functions naming taken w d).Worded false Expr.Worded := by
  cases d with
  | function f => exact Walking.gives_worded_function ⟨ShortName.wordlike_assign, hnaming⟩ h.1 h.2 {}
  | prototype p => exact ⟨wordlike_lookup hnaming (Prototype.Worded.name h) p.name, h.result, h.parameters⟩
  | globals d => exact Walking.gives_worded_globalDeclaration ⟨by simp, hnaming⟩ h {}
  | _ => exact h

end Mangle

/-! ### Shaders -/

namespace Shader

variable {s : Shader}

theorem Worded.optimized (h : s.Worded) (o : Optimizer) : (o.shader s).1.Worded := by
  refine Optimize.of_toFixpoint (fun s h => ⟨h.extensions, ?_⟩) h _ {}
  show ∀ d ∈ (s.declarations.mapM (Optimize.topLevel o.rules)).value, d.Worded false Expr.Worded
  rw [Logged.value_mapM]
  simp only [List.mem_map]
  rintro _ ⟨d, hd, rfl⟩
  exact Optimize.worded_topLevel (h.declarations d hd)

theorem Worded.minified (h : s.Worded) : s.minify.value.Worded := by
  have hround {s : Shader} (h : s.Worded) : (Minify.shader s).value.Worded := by
    refine ⟨h.extensions, ?_⟩
    unfold Minify.shader
    simp only [Logged.value_bind, Logged.value_mapM, Logged.value_pure, List.mem_map]
    rintro _ ⟨d, hd, rfl⟩
    have hd := h.declarations d hd
    cases d with
    | function f => exact ⟨hd.1, Minify.worded_body hd.2 fun s hs => Minify.worded_stmt (hd.2 s hs)⟩
    | _ => exact hd
  have hall (n : Nat) {s : Shader} (h : s.Worded) : (Minify.rounds n s).value.Worded := by
    induction n generalizing s with
    | zero => exact h
    | succ n ih =>
      unfold Minify.rounds
      dsimp only
      split
      · exact hround h
      · exact ih (hround h)
  exact hall _ h

theorem Worded.mangled (h : s.Worded) : s.mangle.1.Worded := by
  refine ⟨h.extensions, ?_⟩
  intro d hd
  obtain ⟨⟨d', w⟩, hmem, rfl⟩ := List.mem_map.mp hd
  exact Mangle.worded_renamed (Mangle.wordlike_functionNaming _ _ _) (h.declarations d' (List.of_mem_zip hmem).1)

end Shader

end GlslEs
