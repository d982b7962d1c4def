import GlslEs.Proofs.Check.Accepted
import GlslEs.Proofs.Check.Expr
import GlslEs.Proofs.Reading.Lexer
import GlslEs.Proofs.Reading.Shader
import GlslEs.Proofs.Writing.Worded

/-!
# Shaders that have been read are made of words

Every name, type word and layout entry of a text is a word, and resolving changes only notes and, where an
array length is not a constant, types of members and parameters.  A member that selects components is the
word of those components.

* `Expr.Worded`: every word of an expression is one, and no list of items is empty.
* `Expr.IsRead`: an expression that tokens spell has been resolved.
* `Resolve.gives_worded_topLevel`: resolving keeps words.
* `Shader.read_of_parse`, `Shader.worded_of_parse`: **a shader that has been read is made of words**.
-/

namespace GlslEs

/-! ### Expressions -/

/-- What is called has a word. -/
def Callee.Worded : Callee → Prop
  | .constructor ty => Lexer.Wordlike false ty.baseName
  | .user name | .builtin name => Lexer.Wordlike false name

namespace Expr

/-- The word of a node is one, and a list of items is not empty. -/
def NodeWorded : Expr → Prop
  | .var _ name | .field _ _ name => Lexer.Wordlike false name
  | .call _ callee _ => callee.Worded
  | .swizzle _ _ set components => Lexer.Wordlike false (set.word components)
  | .seq _ exprs => exprs ≠ []
  | .lit .. | .unary .. | .binary .. | .assign .. | .ternary .. | .index .. => True

/-- Every word of an expression is one, and no list of items is empty. -/
def Worded (e : Expr) : Prop := ∀ x ∈ e.nodes, x.NodeWorded

theorem worded_iff {e : Expr} : e.Worded ↔ e.NodeWorded ∧ ∀ c ∈ e.children, c.Worded := forall_mem_nodes

theorem Worded.child {e c : Expr} (h : e.Worded) (hc : c ∈ e.children) : c.Worded := (worded_iff.mp h).2 c hc

/-- **The pieces of an expression made of words are apart.** -/
theorem Worded.laid {e : Expr} (h : e.Worded) : Laid false e := by
  refine laid_of_nodes fun x hx => ?_
  have hx := h x hx
  cases x with
  | call note callee args =>
    cases callee with
    | user name | builtin name => exact operand_name hx
    | constructor ty => exact operand_typeName hx
  | _ => exact hx

/-- Tokens spell an expression, of which this one is what resolving has made. -/
def IsRead (e : Expr) : Prop := ∃ (x : Expr) (n : Names), x.Spelt ∧ e = x.resolve n

end Expr

/-! ### Resolving -/

/-- A word that selects components is the word of those components. -/
theorem SwizzleSet.word_of_parse? {word : String} {set : SwizzleSet} {components : List Nat}
    (h : parse? word = some (set, components)) : set.word components = word := by
  unfold parse? at h
  obtain ⟨first, -, h⟩ := Option.bind_eq_some_iff.mp h
  obtain ⟨set', -, h⟩ := Option.bind_eq_some_iff.mp h
  obtain ⟨components', hcomponents, h⟩ := Option.bind_eq_some_iff.mp h
  split at h
  · cases h
    have hletters : ∀ {cs : List Char} {is : List Nat}, cs.mapM (fun c => set.letters.idxOf? c) = some is →
        is.filterMap (set.letters[·]?) = cs := by
      intro cs
      induction cs with
      | nil =>
        intro is his
        cases his
        rfl
      | cons c cs ih =>
        intro is his
        rw [List.mapM_cons] at his
        obtain ⟨i, hi, his⟩ := Option.bind_eq_some_iff.mp his
        obtain ⟨is', his', hpure⟩ := Option.bind_eq_some_iff.mp his
        cases hpure
        have hget : set.letters[i]? = some c := by
          obtain ⟨hlt, hget, -⟩ := List.findIdx?_eq_some_iff_getElem.mp hi
          rw [List.getElem?_eq_getElem hlt, beq_iff_eq.mp hget]
        rw [List.filterMap_cons_some hget, ih his']
    rw [SwizzleSet.word, hletters hcomponents, String.ofList_toList]
  · cases h

namespace Expr

theorem NodeWorded.resolve {e : Expr} (h : e.NodeWorded) (n : Names) : (e.resolve n).NodeWorded := by
  cases e with
  | var note name =>
    rw [Expr.resolve]
    split <;> exact h
  | call note callee args =>
    rw [Expr.resolve]
    show (n.resolveCall note.loc callee (resolveAll n args)).1.Worded
    unfold Names.resolveCall
    cases callee with
    | constructor ty =>
      dsimp only
      split <;> exact h
    | builtin name => exact h
    | user name =>
      dsimp only
      split
      · exact h
      · split <;> exact h
  | field note base name =>
    rw [Expr.resolve]
    split
    · rename_i set components hparse
      split at hparse
      · show Lexer.Wordlike false (set.word components)
        rw [SwizzleSet.word_of_parse? hparse]
        exact h
      · cases hparse
    · exact h
  | seq note exprs =>
    rw [Expr.resolve, resolveAll_eq_map]
    exact fun hnil => h (List.map_eq_nil_iff.mp hnil)
  | _ => exact h

theorem Worded.resolve {e : Expr} (h : e.Worded) (n : Names) : (e.resolve n).Worded := by
  intro x hx
  obtain ⟨e', he', rfl⟩ := exists_of_mem_nodes_resolve hx
  exact (h e' he').resolve n

theorem Spelt.worded {e : Expr} (h : e.Spelt) : e.Worded := by
  intro x hx
  have hx := h x hx
  cases x with
  | var note name | field note base name => exact IsName.wordlike hx
  | call note callee args =>
    cases callee with
    | user name => exact IsName.wordlike hx
    | builtin name => exact hx.elim
    | constructor ty =>
      obtain ⟨S, word, hword, hbase⟩ := hx
      show Lexer.Wordlike false ty.baseName
      rw [Ty.baseName, hbase]
      exact hword.wordlike
  | swizzle note base set components => exact hx.elim
  | _ => exact hx

theorem IsRead.worded {e : Expr} (h : e.IsRead) : e.Worded := by
  obtain ⟨x, n, hx, rfl⟩ := h
  exact hx.worded.resolve n

end Expr

namespace Resolve

/-! ### Steps -/

/-- Whatever names are known, the result satisfies `Q`. -/
def Gives {α : Type} (act : Resolve α) (Q : α → Prop) : Prop := ∀ r, Q (act r).1

namespace Gives

variable {α β : Type} {act : Resolve α} {P : α → Prop} {Q : β → Prop} {f : α → Resolve β}

theorem pure {a : α} (h : P a) : Gives (Pure.pure a : Resolve α) P := fun _ => h

theorem bind (hact : Gives act P) (hf : ∀ a, P a → Gives (f a) Q) : Gives (act >>= f) Q :=
  fun r => hf _ (hact r) _

theorem any (act : Resolve α) : Gives act fun _ => True := fun _ => trivial

theorem map {f : α → β} (hact : Gives act P) (hf : ∀ a, P a → Q (f a)) : Gives (f <$> act) Q :=
  fun r => hf _ (hact r)

theorem within {kind : ScopeKind} (hact : Gives act P) : Gives (within kind act) P :=
  (any _).bind fun _ _ => hact.bind fun _ ha => (any _).bind fun _ _ => .pure ha

theorem mapM {xs : List α} (h : ∀ x ∈ xs, P x) (hf : ∀ x, P x → Gives (f x) Q) :
    Gives (xs.mapM f) fun ys => ∀ y ∈ ys, Q y := by
  induction xs with
  | nil => exact .pure (by simp)
  | cons x xs ih =>
    rw [List.mapM_cons]
    refine (hf x (h x List.mem_cons_self)).bind fun y hy => ?_
    refine (ih fun z hz => h z (List.mem_cons_of_mem x hz)).bind fun ys hys => .pure ?_
    exact List.forall_mem_cons.mpr ⟨hy, hys⟩

theorem optionMapM {x : Option α} (h : ∀ a ∈ x, P a) (hf : ∀ a, P a → Gives (f a) Q) :
    Gives (x.mapM f) fun y => ∀ b ∈ y, Q b := by
  cases x with
  | none => exact .pure (by simp)
  | some a => exact (hf a (h a rfl)).bind fun b hb => .pure fun _ hmem => Option.mem_some_iff.mp hmem ▸ hb

theorem loopBody {Q : Stmt → Prop} {act : Resolve Stmt} (body : Stmt) (h : Gives act Q) :
    Gives (loopBody body act) Q := by
  unfold Resolve.loopBody
  split
  · exact h
  · exact h.within

end Gives

/-! ### Declarations -/

theorem gives_worded_expr {e : Expr} (h : e.Spelt) : Gives (expr e) Expr.IsRead :=
  fun r => ⟨e, r.names, h, rfl⟩

theorem gives_worded_arrayed {ty : Ty} {array : Option ArrayLength} {value : Option Ty}
    (hty : ty.Worded false array) (h : ∀ a ∈ array, a.Worded Expr.Spelt) :
    Gives (arrayed ty array value) fun r => (∀ a ∈ r.1, a.Worded Expr.IsRead) ∧ r.2.Worded false r.1 := by
  cases array with
  | none => exact .pure ⟨by simp, hty⟩
  | some length =>
    have hlength : Gives (arrayLength length value) fun r => r.1.Worded Expr.IsRead := by
      cases length with
      | unsized => exact .pure trivial
      | sized e =>
        exact (gives_worded_expr (h _ rfl)).bind fun e' he' => (Gives.any _).bind fun _ _ => .pure he'
    refine hlength.bind fun r hr => .pure ⟨fun a ha => Option.mem_some_iff.mp ha ▸ hr, ?_⟩
    obtain ⟨length', size⟩ := r
    cases size with
    | none => exact .inr ⟨rfl, rfl, rfl⟩
    | some n => exact hty

theorem gives_worded_members {ms : List Member} (h : ∀ m ∈ ms, m.Worded false Expr.Spelt) :
    Gives (members ms) fun ms' => ∀ m ∈ ms', m.Worded false Expr.IsRead :=
  Gives.mapM h fun _ hm => (gives_worded_arrayed hm.ty hm.array).bind fun _ hr =>
    .pure ⟨hm.name, hr.2, hr.1, hm.layout⟩

theorem gives_worded_structDef {d : StructDef} (h : d.Worded false Expr.Spelt) :
    Gives (structDef d) (StructDef.Worded false Expr.IsRead) := by
  refine (gives_worded_members h.members).bind fun ms hms => (Gives.any _).bind fun n _ => ?_
  have hdefined : StructDef.Worded false Expr.IsRead { d with members := ms } := ⟨h.name, hms⟩
  dsimp only
  split
  · exact (Gives.any _).bind fun _ _ => (Gives.any _).bind fun _ _ => .pure hdefined
  · exact (Gives.any _).bind fun _ _ => .pure hdefined

theorem gives_worded_declarator (q : TypeQualifiers) {ty : Ty} (hty : Lexer.Wordlike false ty.baseName)
    {x : Declarator} (h : x.Worded false Expr.Spelt) :
    Gives (declarator q ty x) (Declarator.Worded false Expr.IsRead) :=
  (Gives.optionMapM h.value fun _ => gives_worded_expr).bind fun _ hvalue =>
    (gives_worded_arrayed (.inl hty) h.array).bind fun _ hr => (Gives.any _).bind fun _ _ =>
      (Gives.any _).bind fun _ _ => .pure ⟨h.name, hr.1, hvalue⟩

theorem gives_worded_declaration {d : Declaration} (h : d.Worded false Expr.Spelt) :
    Gives (declaration d) (Declaration.Worded false Expr.IsRead) :=
  (Gives.optionMapM h.struct fun _ => gives_worded_structDef).bind fun _ hstruct =>
    (Gives.mapM h.declarators fun _ => gives_worded_declarator d.qualifiers h.ty).bind fun _ hdeclarators =>
      .pure ⟨h.layout, hstruct, h.ty, hdeclarators⟩

theorem gives_worded_interfaceBlock {b : InterfaceBlock} (h : b.Worded false Expr.Spelt) :
    Gives (interfaceBlock b) (InterfaceBlock.Worded false Expr.IsRead) := by
  unfold interfaceBlock
  refine (gives_worded_members h.members).bind fun _ hms => (Gives.any _).bind fun _ _ => ?_
  dsimp only
  split
  · rename_i name hname
    have hty : (Ty.struct b.name).Worded false b.array := .inl h.name
    refine (gives_worded_arrayed hty h.array).bind fun r hr =>
      (Gives.any _).bind fun _ _ => .pure ⟨h.layout, h.name, hms, h.instanceName, hr.1, fun hnone => ?_⟩
    rw [show b.instanceName = none from hnone] at hname
    cases hname
  · rename_i hname
    refine (Gives.any _).bind fun _ _ => .pure ⟨h.layout, h.name, hms, h.instanceName, ?_, h.array_none⟩
    simp [h.array_none hname]

theorem gives_worded_parameters {xs : List Parameter} (h : ∀ x ∈ xs, x.Worded false Expr.Spelt) :
    Gives (xs.mapM fun x => do
      let (array, ty) ← arrayed x.ty x.array none
      return { x with array, ty }) fun xs' => ∀ x ∈ xs', x.Worded false Expr.IsRead :=
  Gives.mapM h fun _ hx => (gives_worded_arrayed hx.ty hx.array).bind fun _ hr =>
    .pure ⟨hx.name, hr.2, hr.1⟩

theorem gives_worded_prototype {p : Prototype} (h : p.Worded false Expr.Spelt) (defining : Bool) :
    Gives (prototype p defining) (Prototype.Worded false Expr.IsRead) :=
  (gives_worded_parameters h.parameters).bind fun _ hxs => (Gives.any _).bind fun _ _ =>
    .pure ⟨h.name, h.result, hxs⟩

/-! ### Statements -/

theorem gives_worded_loopStart {start : LoopStart}
    (h : start.Holds Expr.Spelt (Declaration.Worded false Expr.Spelt)) :
    Gives (loopStart start) (LoopStart.Holds Expr.IsRead (Declaration.Worded false Expr.IsRead)) := by
  cases h with
  | absent => exact .pure .absent
  | empty => exact .pure .empty
  | expr he => exact (gives_worded_expr he).bind fun _ he => .pure (.expr he)
  | decl hd => exact (gives_worded_declaration hd).bind fun _ hd => .pure (.decl hd)

theorem gives_worded_statements {ss : List Stmt}
    (h : ∀ s ∈ ss, Gives (statement false s) (Stmt.Worded false Expr.IsRead)) :
    Gives (statements ss) fun ss' => ∀ s ∈ ss', s.Worded false Expr.IsRead := by
  induction ss with
  | nil => exact .pure (by simp)
  | cons s ss ih =>
    refine (h s List.mem_cons_self).bind fun s' hs => ?_
    refine (ih fun t ht => h t (List.mem_cons_of_mem s ht)).bind fun ss' hss => .pure ?_
    exact List.forall_mem_cons.mpr ⟨hs, hss⟩

/-- Resolving a statement keeps words. -/
theorem gives_worded_statement {s : Stmt} (h : s.Worded false Expr.Spelt) (inner : Bool) :
    Gives (statement inner s) (Stmt.Worded false Expr.IsRead) := by
  have option {x : Option Expr} (hx : ∀ e ∈ x, e.Spelt) : Gives (x.mapM expr) fun y => ∀ e ∈ y, e.IsRead :=
    Gives.optionMapM hx fun _ => gives_worded_expr
  induction h generalizing inner with
  | expr he => exact (gives_worded_expr he).bind fun _ he => .pure (.expr he)
  | decl hd => exact (gives_worded_declaration hd).bind fun _ hd => .pure (.decl hd)
  | block _ ih =>
    have hbody := gives_worded_statements fun s hs => ih s hs false
    refine Gives.map (P := fun ss' => ∀ s ∈ ss', s.Worded false Expr.IsRead) ?_ fun _ h => .block h
    split
    · exact hbody
    · exact hbody.within
  | ifThen hc _ ih =>
    exact (gives_worded_expr hc).bind fun _ hc => (ih true).within.map fun _ ht => .ifThen hc ht
  | ifElse hc _ _ iht ihe =>
    exact (gives_worded_expr hc).bind fun _ hc => (iht true).within.bind fun _ ht =>
      (ihe true).within.map fun _ he => .ifElse hc ht he
  | forLoop hstart hc hs _ ih =>
    exact Gives.within <| (gives_worded_loopStart hstart).bind fun _ hstart => (option hc).bind fun _ hc =>
      (option hs).bind fun _ hs => (Gives.loopBody _ (ih true)).map fun _ hb => .forLoop hstart hc hs hb
  | whileLoop hc _ ih =>
    exact Gives.within <| (gives_worded_expr hc).bind fun _ hc =>
      (Gives.loopBody _ (ih true)).map fun _ hb => .whileLoop hc hb
  | doWhile _ hc ih =>
    exact Gives.within <| (gives_worded_expr hc).bind fun _ hc =>
      (Gives.loopBody _ (ih true)).bind fun _ hb => .pure (.doWhile hb hc)
  | switch hs _ ih =>
    exact (gives_worded_expr hs).bind fun _ hs =>
      (gives_worded_statements fun s hs => ih s hs false).within.bind fun _ hb => .pure (.switch hs hb)
  | label hv => exact (option hv).bind fun _ hv => .pure (.label hv)
  | result hv => exact (option hv).bind fun _ hv => .pure (.result hv)
  | jump => exact .pure .jump
  | empty => exact .pure .empty

/-- Resolving a declaration keeps words. -/
theorem gives_worded_topLevel {d : TopLevel} (h : d.Worded false Expr.Spelt) :
    Gives (topLevel d) (TopLevel.Worded false Expr.IsRead) := by
  cases d with
  | precision p ty loc | layout q loc => exact .pure h
  | globals d => exact (gives_worded_declaration h).bind fun _ hd => .pure hd
  | struct d => exact (gives_worded_structDef h).bind fun _ hd => .pure hd
  | block b => exact (gives_worded_interfaceBlock h).bind fun _ hb => .pure hb
  | prototype p => exact (gives_worded_prototype h false).bind fun _ hp => .pure hp
  | function f =>
    have hfunction : Gives (function f) fun f' =>
        f'.prototype.Worded false Expr.IsRead ∧ ∀ s ∈ f'.body, s.Worded false Expr.IsRead :=
      (gives_worded_prototype h.1 true).bind fun _ hp => Gives.within <| (Gives.any _).bind fun _ _ =>
        (gives_worded_statements fun s hs => gives_worded_statement (h.2 s hs) false).bind fun _ hb =>
          .pure ⟨hp, hb⟩
    exact hfunction.bind fun _ hf => .pure hf

end Resolve

/-! ### Shaders -/

namespace Shader

/-- All words of a shader are words, and the names of its extensions stand on one line. -/
structure Worded (s : Shader) : Prop where
  extensions : ∀ e ∈ s.extensions, '\n' ∉ e.name.toList
  declarations : ∀ d ∈ s.declarations, d.Worded false Expr.Worded

variable {source : String} {limits : Limits} {s : Shader} {ds : List Diagnostic}

/-- The declarations of a shader that has been read are made of words and of expressions that have been
read. -/
theorem read_of_parse (h : parse source limits = .ok (s, ds)) :
    ∀ d ∈ s.declarations, d.Worded false Expr.IsRead := by
  obtain ⟨lexemes, shader, hlexemes, htokens, hresolve⟩ := exists_resolve_of_parse h
  obtain ⟨-, hworded, -⟩ := spelt_of_ofTokens htokens (Lexer.isRead_of_tokenize hlexemes)
  obtain rfl : (shader.resolve limits).1 = s := by rw [hresolve]
  exact Resolve.Gives.mapM (fun d hd => (hworded d hd).mono fun _ => id) (fun _ => Resolve.gives_worded_topLevel) _

/-- **A shader that has been read is made of words.** -/
theorem worded_of_parse (h : parse source limits = .ok (s, ds)) : s.Worded := by
  refine ⟨?_, fun d hd => (read_of_parse h d hd).mono fun _ => Expr.IsRead.worded⟩
  obtain ⟨lexemes, shader, hlexemes, htokens, hresolve⟩ := exists_resolve_of_parse h
  obtain rfl : (shader.resolve limits).1 = s := by rw [hresolve]
  exact (spelt_of_ofTokens htokens (Lexer.isRead_of_tokenize hlexemes)).1

end Shader

end GlslEs
