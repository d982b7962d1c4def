import GlslEs.Proofs.Minify.Hoist
import GlslEs.Proofs.Writing.Read
import Mathlib.Data.List.Forall2

/-!
# The meaning of shortened statements

Joining expressions with commas, folding branches and dropping braces keep what statements do, and
so does hoisting assignments that are independent of their condition.

* `Interpretation.Same`: statements that do the same wherever they stand.
* `Minify.joins_keeps`: **joining keeps what statements do**.
* `Minify.same_body`: **a round of shortening keeps what a body does**.
* `Shader.forall₂_sameRun_minify`: **shortening keeps what functions do**, if all that is hoisted in
  any round is independent.
-/

namespace GlslEs

open Execution

/-! ### Expressions in a row -/

namespace Expr

/-- Whether an expression is a list of items without an item. -/
def isVacant : Expr → Bool
  | .seq _ exprs => exprs.isEmpty
  | _ => false

end Expr

namespace Interpretation

variable {V α : Type} (I : Interpretation V)

/-- Evaluates expressions for what they change. -/
def evalEach (ρ : Bindings) : List Expr → Action V Unit
  | [] => pure ()
  | e :: es => do
    let _ ← I.eval ρ e
    evalEach ρ es

theorem evalEach_append (ρ : Bindings) (as bs : List Expr) :
    I.evalEach ρ (as ++ bs) = (do I.evalEach ρ as; I.evalEach ρ bs) := by
  induction as with
  | nil => simp [evalEach]
  | cons e as ih => simp [evalEach, ih]

theorem evalAll_concat (ρ : Bindings) (es : List Expr) (e : Expr) (f : List V → Action V α) :
    (I.evalAll ρ (es ++ [e]) >>= f) =
      (do let vs ← I.evalAll ρ es; let v ← I.eval ρ e; f (vs ++ [v])) := by
  induction es generalizing f with
  | nil => simp [evalAll]
  | cons e' es ih => simp [evalAll, ih]

theorem evalAll_bind_const (ρ : Bindings) (es : List Expr) (next : Action V α) :
    (I.evalAll ρ es >>= fun _ => next) = (I.evalEach ρ es >>= fun _ => next) := by
  induction es with
  | nil => simp [evalAll, evalEach]
  | cons e es ih => simp [evalAll, evalEach, ih]

/-- A list of items is worth its last item. -/
theorem eval_seq_concat (ρ : Bindings) (note : Note) (es : List Expr) (e : Expr) :
    I.eval ρ (.seq note (es ++ [e])) = (do I.evalEach ρ es; I.eval ρ e) := by
  rw [eval, evalAll_concat, ← evalAll_bind_const]
  have hlast : ∀ (vs : List V) v, Action.ofOption (vs ++ [v]).getLast? = (pure v : Action V V) := by
    intro vs v
    rw [List.getLast?_concat]
    rfl
  simp only [hlast, bind_pure]

end Interpretation

/-! ### Joining -/

namespace Minify

variable {V : Type} (I : Interpretation V)

/-- The items of an expression end with an item, and are evaluated one after the other. -/
theorem exists_items {e : Expr} (h : e.isVacant = false) :
    ∃ es last, items e = es ++ [last] ∧ ∀ ρ, I.eval ρ e = (do I.evalEach ρ es; I.eval ρ last) := by
  cases e with
  | seq note exprs =>
    rcases List.eq_nil_or_concat exprs with rfl | ⟨es, last, rfl⟩
    · cases h
    · exact ⟨es, last, by simp [items], fun ρ => by simpa using I.eval_seq_concat ρ note es last⟩
  | _ => exact ⟨[], _, rfl, fun ρ => rfl⟩

theorem evalEach_flatMap_items {es : List Expr} (h : ∀ e ∈ es, e.isVacant = false) (ρ : Bindings) :
    I.evalEach ρ (es.flatMap items) = I.evalEach ρ es := by
  induction es with
  | nil => rfl
  | cons e es ih =>
    obtain ⟨front, last, hitems, heval⟩ := exists_items I (h e List.mem_cons_self)
    rw [List.flatMap_cons, I.evalEach_append, ih fun c hc => h c (List.mem_cons_of_mem e hc), hitems,
      I.evalEach_append]
    simp [Interpretation.evalEach, heval]

/-- Expressions joined with commas are evaluated one after the other. -/
theorem eval_joined {pending : List Expr} {e : Expr} (hpending : ∀ e ∈ pending, e.isVacant = false)
    (he : e.isVacant = false) (ρ : Bindings) :
    I.eval ρ (joined (pending ++ [e])) = (do I.evalEach ρ pending; I.eval ρ e) := by
  cases pending with
  | nil => rfl
  | cons first rest =>
    obtain ⟨front, last, hitems, heval⟩ := exists_items I he
    have hjoined : ∃ note, joined ((first :: rest) ++ [e]) =
        .seq note ((first :: rest).flatMap items ++ front ++ [last]) := by
      unfold joined
      split
      · rename_i hsingle
        simp at hsingle
      · exact ⟨_, by rw [List.flatMap_append, List.flatMap_singleton, hitems, List.append_assoc]⟩
    obtain ⟨note, hjoined⟩ := hjoined
    rw [hjoined, I.eval_seq_concat, I.evalEach_append, evalEach_flatMap_items I hpending, heval]
    simp

end Minify

/-! ### Statements that do the same -/

namespace Stmt

/-- Whether a statement brings no name into scope and is no label. -/
def isPlain : Stmt → Bool
  | .decl .. | .label .. => false
  | _ => true

theorem after_of_isPlain {s : Stmt} (h : s.isPlain = true) (ρ : Bindings) : ρ.after s = ρ := by
  cases s <;> first | rfl | cases h

theorem afterAll_of_isPlain {ss : List Stmt} (h : ∀ s ∈ ss, s.isPlain = true) (ρ : Bindings) :
    ρ.afterAll ss = ρ := by
  induction ss with
  | nil => rfl
  | cons s ss ih =>
    obtain ⟨hs, hss⟩ := List.forall_mem_cons.mp h
    rw [Bindings.afterAll_cons, after_of_isPlain hs, ih hss]

theorem labels_of_isPlain {s : Stmt} (h : s.isPlain = true) (ρ : Bindings) : labels ρ [s] = [] := by
  cases s <;> first | rfl | cases h

end Stmt

namespace Interpretation

variable {V : Type} (I : Interpretation V)

/-- Statements that do the same, bring the same names into scope and have the same labels. -/
structure Same (ss ss' : List Stmt) : Prop where
  execFrom : ∀ fuel k ρ, I.execFrom fuel k ρ ss' = I.execFrom fuel k ρ ss
  after : ∀ ρ : Bindings, ρ.afterAll ss' = ρ.afterAll ss
  labels : ∀ ρ, Stmt.labels ρ ss' = Stmt.labels ρ ss

namespace Same

variable {I} {ss ss' ss'' as as' bs bs' : List Stmt} {s s' : Stmt}

theorem refl (ss : List Stmt) : I.Same ss ss := ⟨fun _ _ _ => rfl, fun _ => rfl, fun _ => rfl⟩

theorem trans (h : I.Same ss ss') (h' : I.Same ss' ss'') : I.Same ss ss'' where
  execFrom fuel k ρ := (h'.execFrom fuel k ρ).trans (h.execFrom fuel k ρ)
  after ρ := (h'.after ρ).trans (h.after ρ)
  labels ρ := (h'.labels ρ).trans (h.labels ρ)

theorem countP_isLabel (h : I.Same ss ss') : ss'.countP Stmt.isLabel = ss.countP Stmt.isLabel := by
  rw [← Stmt.length_labels fun _ => Location.none, h.labels, Stmt.length_labels]

theorem append (ha : I.Same as as') (hb : I.Same bs bs') : I.Same (as ++ bs) (as' ++ bs') where
  execFrom fuel k ρ := by
    rw [I.execFrom_append, I.execFrom_append, ha.execFrom, ha.after, ha.countP_isLabel, hb.execFrom]
  after ρ := by rw [Bindings.afterAll_append, Bindings.afterAll_append, ha.after, hb.after]
  labels ρ := by rw [Stmt.labels_append, Stmt.labels_append, ha.labels, ha.after, hb.labels]

/-- Of plain statements only what they do counts. -/
theorem of_plain (hss : ∀ s ∈ ss, s.isPlain = true) (hss' : ∀ s ∈ ss', s.isPlain = true)
    (h : ∀ fuel ρ, I.execFrom fuel 0 ρ ss' = I.execFrom fuel 0 ρ ss) : I.Same ss ss' := by
  have hlabels : ∀ {ss : List Stmt}, (∀ s ∈ ss, s.isPlain = true) → ∀ ρ, Stmt.labels ρ ss = [] := by
    intro ss hss ρ
    induction ss with
    | nil => rfl
    | cons s ss ih =>
      have hs := hss s List.mem_cons_self
      rw [Stmt.labels_cons, Stmt.labels_of_isPlain hs, Stmt.after_of_isPlain hs]
      exact ih fun t ht => hss t (List.mem_cons_of_mem s ht)
  have hskip : ∀ {ss : List Stmt}, (∀ s ∈ ss, s.isPlain = true) → ∀ fuel k ρ,
      I.execFrom fuel (k + 1) ρ ss = pure .normal := by
    intro ss hss fuel k ρ
    induction ss generalizing ρ with
    | nil => exact I.execFrom_nil fuel (k + 1) ρ
    | cons s ss ih =>
      have hlabel : s.isLabel = false := by
        have hs := hss s List.mem_cons_self
        cases s <;> first | rfl | cases hs
      rw [I.execFrom_succ_cons, hlabel]
      exact ih (fun t ht => hss t (List.mem_cons_of_mem s ht)) _
  refine ⟨fun fuel k ρ => ?_, fun ρ => ?_, fun ρ => ?_⟩
  · cases k with
    | zero => exact h fuel ρ
    | succ k => rw [hskip hss, hskip hss']
  · rw [Stmt.afterAll_of_isPlain hss, Stmt.afterAll_of_isPlain hss']
  · rw [hlabels hss, hlabels hss']

/-- One statement for another that does the same. -/
theorem of_exec (hs : s.isPlain = true) (hs' : s'.isPlain = true)
    (h : ∀ fuel ρ, I.exec fuel ρ s' = I.exec fuel ρ s) : I.Same [s] [s'] := by
  refine .of_plain (by simpa using hs) (by simpa using hs') fun fuel ρ => ?_
  rw [I.execFrom_zero_cons, I.execFrom_zero_cons, h, Stmt.after_of_isPlain hs,
    Stmt.after_of_isPlain hs']

end Same

/-- A single statement in a row does what it does alone. -/
theorem execFrom_singleton (fuel : Nat) (ρ : Bindings) (s : Stmt) :
    I.execFrom fuel 0 ρ [s] = I.exec fuel ρ s := by
  simp

end Interpretation

namespace Minify

variable {s : Stmt} {e : Expr} {ss : List Stmt} {pending : List Expr}

open Interpretation Stmt

variable {V : Type} {I : Interpretation V}

theorem exec_soleItem (h : soleItem? s = some e) (fuel : Nat)
    (ρ : Bindings) : I.exec fuel ρ s = (do let _ ← I.eval ρ e; return .normal) := by
  obtain ⟨-, ⟨_, rfl⟩ | ⟨_, _, rfl⟩⟩ := soleItem?_eq_some h
  · rw [Interpretation.exec]
  · rw [Interpretation.exec, I.execFrom_singleton, Interpretation.exec]

/-- Folding a branch keeps what the statement does. -/
theorem exec_foldIf {s' : Stmt} (h : foldIf? s = some s') (fuel : Nat) (ρ : Bindings) :
    I.exec fuel ρ s' = I.exec fuel ρ s := by
  obtain ⟨loc, c, t, e, a, b, rfl, ht, he, -, rfl⟩ | ⟨loc, c, t, a, rfl, ht, -, rfl⟩ :=
    foldIf?_eq_some h
  · simp only [Interpretation.exec, Interpretation.eval, Interpretation.holds, exec_soleItem ht,
      exec_soleItem he, bind_assoc]
    congr 1
    funext v
    congr 1
    funext b
    split <;> rfl
  · simp only [Interpretation.exec, Interpretation.eval, Interpretation.holds, exec_soleItem ht,
      bind_assoc]
    congr 1
    funext v
    congr 1
    funext b
    split <;> simp

/-- What a statement hoists once its branches have been folded. -/
def hoistOf? (s : Stmt) : Option Hoist := Hoist.ofStmt? (attempt .branch foldIf? s).value

/-- No expression of a statement is an empty list of items. -/
def Solid (es : List Expr) : Prop := ∀ e ∈ es, e.isVacant = false

@[simp] theorem solid_nil : Solid [] := nofun

@[simp] theorem solid_cons {es : List Expr} :
    Solid (e :: es) ↔ e.isVacant = false ∧ Solid es := List.forall_mem_cons

@[simp] theorem solid_append {as bs : List Expr} : Solid (as ++ bs) ↔ Solid as ∧ Solid bs :=
  List.forall_mem_append

theorem solid_exprsAll : Solid (exprsAll ss) ↔ ∀ s ∈ ss, Solid s.exprs := by
  rw [exprsAll_eq_flatMap]
  simp only [Solid, List.mem_flatMap]
  exact ⟨fun h s hs e he => h e ⟨s, hs, he⟩, fun h e ⟨s, hs, he⟩ => h s hs e he⟩

theorem solid_joined (hne : pending ≠ []) (h : Solid pending) :
    (joined pending).isVacant = false := by
  unfold joined
  split
  · exact h _ List.mem_cons_self
  · rename_i es _
    obtain ⟨e, es, rfl⟩ := List.exists_cons_of_ne_nil hne
    have he := h e List.mem_cons_self
    have hitems : items e ≠ [] := by
      cases e with
      | seq note exprs => simpa [Expr.isVacant, items] using he
      | _ => simp [items]
    simp [Expr.isVacant, hitems]

/-! ### Joining statements -/

theorem execFrom_exprStmts (fuel : Nat) (ρ : Bindings) (es : List Expr) :
    I.execFrom fuel 0 ρ (es.map exprStmt) = (do I.evalEach ρ es; return .normal) := by
  induction es with
  | nil => simp [Interpretation.evalEach]
  | cons e es ih =>
    rw [List.map_cons, I.execFrom_zero_cons, after_of_isPlain rfl, ih, exprStmt, Interpretation.exec,
      Interpretation.evalEach]
    simp

theorem isPlain_exprStmts (es : List Expr) : ∀ s ∈ es.map exprStmt, s.isPlain = true := by
  intro s hs
  obtain ⟨e, -, rfl⟩ := List.mem_map.mp hs
  rfl

/-- Statements without an empty list of items are rewritten to such statements that do the same. -/
def Keeps (I : Interpretation V) (as bs : List Stmt) : Prop :=
  Solid (exprsAll as) → Solid (exprsAll bs) ∧ I.Same as bs

/-- A statement that becomes an expression. -/
theorem Keeps.of_expr {loc : Location} (hs : s.isPlain = true) (he : e.isVacant = false)
    (h : ∀ fuel ρ, I.exec fuel ρ (.expr loc e) = I.exec fuel ρ s) : Keeps I [s] [.expr loc e] :=
  fun _ => ⟨by simpa [exprsAll, exprs] using he, .of_exec hs rfl h⟩

theorem exprsAll_exprStmts (es : List Expr) : exprsAll (es.map exprStmt) = es := by
  simp [exprsAll_eq_flatMap, List.flatMap_map, exprStmt, exprs]

theorem keeps_flushed (hne : pending ≠ []) :
    Keeps I (pending.map exprStmt) [(flushed pending).value] := by
  intro h
  rw [exprsAll_exprStmts] at h
  refine ⟨by simpa [exprsAll, exprs, flushed] using solid_joined hne h, ?_⟩
  refine .of_plain (isPlain_exprStmts pending) (by simp [flushed, isPlain]) fun fuel ρ => ?_
  obtain ⟨front, last, rfl⟩ : ∃ front last, pending = front ++ [last] :=
    ⟨_, _, (List.dropLast_concat_getLast hne).symm⟩
  rw [execFrom_exprStmts, I.execFrom_singleton, flushed, Interpretation.exec,
    eval_joined I (fun e he => h e (by simp [he])) (h last (by simp)), I.evalEach_append]
  simp [Interpretation.evalEach]

theorem keeps_absorb {s' : Stmt} (h : absorb? pending s = some s') :
    Keeps I (pending.map exprStmt ++ [s]) [s'] := by
  intro hsolid
  rw [exprsAll_eq_flatMap, List.flatMap_append, ← exprsAll_eq_flatMap, exprsAll_exprStmts,
    List.flatMap_singleton, solid_append] at hsolid
  obtain ⟨hpending, hs⟩ := hsolid
  have hjoined : ∀ e, e.isVacant = false → (joined (pending ++ [e])).isVacant = false :=
    fun e he => solid_joined (by simp) (by simp [hpending, he])
  have hplain : s.isPlain = true ∧ s'.isPlain = true := by
    obtain ⟨_, _, rfl, -, rfl⟩ | ⟨_, _, _, rfl, rfl⟩ | ⟨_, _, _, _, rfl, rfl⟩ :=
      absorb?_eq_some h <;> exact ⟨rfl, rfl⟩
  refine ⟨?_, .of_plain ?_ (by simpa using hplain.2) fun fuel ρ => ?_⟩
  · obtain ⟨_, _, rfl, -, rfl⟩ | ⟨_, _, _, rfl, rfl⟩ | ⟨_, _, _, _, rfl, rfl⟩ := absorb?_eq_some h
    all_goals simp_all [exprsAll, exprs]
  · intro t ht
    rcases List.mem_append.mp ht with ht | ht
    · exact isPlain_exprStmts pending t ht
    · rw [List.mem_singleton.mp ht]
      exact hplain.1
  have hfront : I.execFrom fuel 0 ρ (pending.map exprStmt ++ [s]) =
      (do I.evalEach ρ pending; I.exec fuel ρ s) := by
    rw [I.execFrom_append, execFrom_exprStmts, Nat.zero_sub, afterAll_of_isPlain (isPlain_exprStmts pending),
      I.execFrom_singleton]
    simp
  rw [hfront, I.execFrom_singleton]
  obtain ⟨loc, e, rfl, -, rfl⟩ | ⟨loc, c, t, rfl, rfl⟩ | ⟨loc, c, t, e, rfl, rfl⟩ :=
    absorb?_eq_some h
  · have he := hs e (by simp [exprs])
    simp [Interpretation.exec, eval_joined I hpending he]
  · have hc := hs c (by simp [exprs])
    simp [Interpretation.exec, Interpretation.holds, eval_joined I hpending hc]
  · have hc := hs c (by simp [exprs])
    simp [Interpretation.exec, Interpretation.holds, eval_joined I hpending hc]

/-- Joining keeps what statements do. -/
theorem joins_keeps : Joins (Keeps I) where
  refl ss h := ⟨h, .refl ss⟩
  trans h h' hs := ⟨(h' (h hs).1).1, (h hs).2.trans (h' (h hs).1).2⟩
  append h h' hs := by
    simp only [exprsAll_eq_flatMap, List.flatMap_append, solid_append] at hs ⊢
    simp only [← exprsAll_eq_flatMap] at hs ⊢
    exact ⟨⟨(h hs.1).1, (h' hs.2).1⟩, (h hs.1).2.append (h' hs.2).2⟩
  item loc e hs := ⟨hs, .of_exec rfl rfl fun fuel ρ => by simp only [exprStmt, Interpretation.exec]⟩
  foldIf hs := by
    obtain ⟨_, _, _, _, _, _, rfl, -, -, -, rfl⟩ | ⟨_, _, _, _, rfl, -, -, rfl⟩ := foldIf?_eq_some hs
    all_goals exact .of_expr rfl rfl (exec_foldIf hs)
  flushed := keeps_flushed
  absorb := keeps_absorb

/-- Folding keeps what a statement does, if what it hoists is independent. -/
theorem keeps_folded (h : ∀ x ∈ hoistOf? s, x.Independent I) : Keeps I [s] [(folded s).value] := by
  refine joins_keeps.folded fun s' hs' => ?_
  unfold hoistOf? at h
  obtain ⟨_, _, _, _, _, _, _, _, _, _, hs, -, -, -, rfl⟩ := hoist?_eq_some hs'
  exact .of_expr (by rw [hs]; rfl) rfl (exec_hoist hs' h)

/-! ### One round -/

mutual

/-- What is hoisted below a statement in a round. -/
def hoists : Stmt → List Hoist
  | .block _ body | .switch _ _ _ body => hoistsAll body ++ (stmts body).value.filterMap hoistOf?
  | .ifThen _ _ thenBranch => hoists thenBranch
  | .ifElse _ _ thenBranch elseBranch => hoists thenBranch ++ hoists elseBranch
  | .forLoop _ _ _ _ body | .whileLoop _ _ body | .doWhile _ body _ => hoists body
  | .expr .. | .decl .. | .label .. | .result .. | .jump .. | .empty _ => []

/-- What is hoisted below several statements in a round. -/
def hoistsAll : List Stmt → List Hoist
  | [] => []
  | s :: ss => hoists s ++ hoistsAll ss

end

/-- What is hoisted in a body in a round. -/
def bodyHoists (ss : List Stmt) : List Hoist := hoistsAll ss ++ (stmts ss).value.filterMap hoistOf?

theorem hoistsAll_eq_flatMap (ss : List Stmt) : hoistsAll ss = ss.flatMap hoists := by
  induction ss with
  | nil => rfl
  | cons s ss ih => rw [hoistsAll, ih, List.flatMap_cons]

theorem exec_unbraced (s : Stmt) (fuel : Nat) (ρ : Bindings) :
    I.exec fuel ρ (unbraced s).value = I.exec fuel ρ s := by
  obtain h | ⟨_, inner, rfl, h, -⟩ := unbraced_eq s
  · rw [h]
    rfl
  · rw [h, Logged.value_noting, Interpretation.exec, I.execFrom_singleton]

theorem exprs_unbraced (s : Stmt) : (unbraced s).value.exprs = s.exprs := by
  obtain h | ⟨_, inner, rfl, h, -⟩ := unbraced_eq s
  · rw [h]
    rfl
  · rw [h, Logged.value_noting, exprs, exprsAll, exprsAll, List.append_nil]

/-- A statement does after a round what it did before. -/
theorem exec_stmt (s : Stmt) (hs : Solid s.exprs) (h : ∀ x ∈ hoists s, x.Independent I) :
    Solid (stmt s).value.exprs ∧ ∀ fuel ρ, I.exec fuel ρ (stmt s).value = I.exec fuel ρ s := by
  induction s using Stmt.forall_of_children with
  | h s ih =>
    have hall : ∀ ss : List Stmt, (∀ c ∈ ss, c ∈ s.children) → Solid (exprsAll ss) →
        (∀ x ∈ bodyHoists ss, x.Independent I) → Solid (exprsAll (body ss).value) ∧ I.Same ss (body ss).value := by
      intro ss hss hsolid hhoists
      simp only [bodyHoists, hoistsAll_eq_flatMap, List.forall_mem_append, List.mem_flatMap,
        List.mem_filterMap] at hhoists
      refine joins_keeps.body (fun c hc _ => ?_) (fun c hc => keeps_folded fun x hx => hhoists.2 x ⟨c, hc, hx⟩) hsolid
      obtain ⟨hc', hexec⟩ := ih c (hss c hc) (solid_exprsAll.mp hsolid c hc) fun x hx => hhoists.1 x ⟨c, hc, hx⟩
      refine ⟨by simpa [exprsAll] using hc', ?_⟩
      cases c with
      | decl loc d | label loc value => exact .refl _
      | _ => exact .of_exec rfl rfl hexec
    have hbranch : ∀ c ∈ s.children, Solid c.exprs → (∀ x ∈ hoists c, x.Independent I) →
        Solid (bodyOf c).exprs ∧ ∀ fuel ρ, I.exec fuel ρ (bodyOf c) = I.exec fuel ρ c := by
      intro c hc hsolid hhoists
      obtain ⟨hsolid', hexec⟩ := ih c hc hsolid hhoists
      refine ⟨?_, fun fuel ρ => (exec_unbraced _ fuel ρ).trans (hexec fuel ρ)⟩
      rw [bodyOf, exprs_unbraced]
      exact hsolid'
    cases s with
    | block loc body =>
      obtain ⟨hsolid, hsame⟩ := hall body (fun _ hc => hc) hs h
      refine ⟨hsolid, fun fuel ρ => ?_⟩
      show I.exec fuel ρ (.block loc (Minify.body body).value) = _
      rw [Interpretation.exec, Interpretation.exec, hsame.execFrom]
    | switch loc selector bodyLoc body =>
      obtain ⟨hselector, hs⟩ := solid_cons.mp hs
      obtain ⟨hsolid, hsame⟩ := hall body (fun _ hc => hc) hs h
      refine ⟨solid_cons.mpr ⟨hselector, hsolid⟩, fun fuel ρ => ?_⟩
      show I.exec fuel ρ (.switch loc selector bodyLoc (Minify.body body).value) = _
      simp only [Interpretation.exec, hsame.execFrom, hsame.labels]
    | ifThen loc condition thenBranch =>
      obtain ⟨hcondition, hs⟩ := solid_cons.mp hs
      obtain ⟨hsolid, hexec⟩ := hbranch thenBranch (by simp [children]) hs h
      refine ⟨solid_cons.mpr ⟨hcondition, hsolid⟩, fun fuel ρ => ?_⟩
      show I.exec fuel ρ (.ifThen loc condition (bodyOf thenBranch)) = _
      rw [Interpretation.exec, Interpretation.exec, hexec]
    | ifElse loc condition thenBranch elseBranch =>
      simp only [exprs, solid_cons, solid_append] at hs
      simp only [hoists, List.forall_mem_append] at h
      obtain ⟨hthen, hexec⟩ := hbranch thenBranch (by simp [children]) hs.2.1 h.1
      obtain ⟨helse, hexec'⟩ := hbranch elseBranch (by simp [children]) hs.2.2 h.2
      refine ⟨solid_cons.mpr ⟨hs.1, solid_append.mpr ⟨hthen, helse⟩⟩, fun fuel ρ => ?_⟩
      show I.exec fuel ρ (.ifElse loc condition (bodyOf thenBranch) (bodyOf elseBranch)) = _
      rw [Interpretation.exec, Interpretation.exec, hexec, hexec']
    | forLoop loc start condition step body =>
      obtain ⟨hhead, hs⟩ := solid_append.mp hs
      obtain ⟨hsolid, hexec⟩ := hbranch body (by simp [children]) hs h
      refine ⟨solid_append.mpr ⟨hhead, hsolid⟩, fun fuel ρ => ?_⟩
      show I.exec fuel ρ (.forLoop loc start condition step (bodyOf body)) = _
      simp only [Interpretation.exec, hexec]
    | whileLoop loc condition body | doWhile loc body condition =>
      obtain ⟨hcondition, hs⟩ := solid_cons.mp hs
      obtain ⟨hsolid, hexec⟩ := hbranch body (by simp [children]) hs h
      refine ⟨solid_cons.mpr ⟨hcondition, hsolid⟩, fun fuel ρ => ?_⟩
      simp only [stmt, Logged.value_map, Logged.value_andThen, Interpretation.exec]
      rw [show (unbraced (stmt body).value).value = bodyOf body from rfl, hexec]
    | _ => exact ⟨hs, fun fuel ρ => rfl⟩

/-- A round of shortening keeps what a body does. -/
theorem same_body (hss : Solid (exprsAll ss)) (h : ∀ x ∈ bodyHoists ss, x.Independent I) :
    Solid (exprsAll (body ss).value) ∧ ∀ fuel ρ, I.run fuel ρ (body ss).value = I.run fuel ρ ss := by
  obtain ⟨hsolid, hexec⟩ := exec_stmt (.block .none ss) hss h
  refine ⟨hsolid, fun fuel ρ => ?_⟩
  have hblock := hexec fuel ρ
  rwa [Interpretation.exec] at hblock

end Minify

/-! ### Shaders -/

namespace Shader

open Minify Stmt

variable {V : Type} {I : Interpretation V} {s : Shader}

/-- What is hoisted in the functions of a shader, in so many rounds. -/
def hoists : Nat → Shader → List Hoist
  | 0, _ => []
  | k + 1, s =>
    s.functions.flatMap (fun f => bodyHoists f.body) ++
      if (Minify.shader s).log.isEmpty then [] else hoists k (Minify.shader s).value

theorem isVacant_resolve (n : Names) (e : Expr) : (e.resolve n).isVacant = e.isVacant := by
  cases e with
  | var note name =>
    unfold Expr.resolve
    split <;> rfl
  | field note base name =>
    unfold Expr.resolve
    dsimp only
    split <;> rfl
  | seq note exprs => cases exprs <;> rfl
  | _ => rfl

theorem solid_of_parse {source : String} {limits : Limits} {ds : List Diagnostic}
    (h : parse source limits = .ok (s, ds)) : ∀ f ∈ s.functions, Solid (exprsAll f.body) := by
  intro f hf e he
  obtain ⟨stmt, hstmt, he⟩ := mem_exprsAll.mp he
  have hread := ((read_of_parse h _ (mem_functions.mp hf)).2 stmt hstmt).forall_exprs fun d hd => hd.values
  obtain ⟨x, n, hx, rfl⟩ := hread e he
  rw [isVacant_resolve]
  cases x with
  | seq note exprs =>
    have hne : exprs ≠ [] := hx _ (Expr.mem_nodes_self _)
    cases exprs with
    | nil => exact absurd rfl hne
    | cons e es => rfl
  | _ => rfl

/-- The functions have the same head, and their bodies do the same. -/
structure SameRun (I : Interpretation V) (f f' : Function) : Prop where
  prototype : f'.prototype = f.prototype
  run : ∀ fuel ρ σ, I.run fuel ρ f'.body σ = I.run fuel ρ f.body σ

theorem SameRun.trans {f f' f'' : Function} (h : SameRun I f f') (h' : SameRun I f' f'') :
    SameRun I f f'' where
  prototype := h'.prototype.trans h.prototype
  run fuel ρ σ := (h'.run fuel ρ σ).trans (h.run fuel ρ σ)

theorem SameRun.forall₂_trans {fs fs' fs'' : List Function} (h : List.Forall₂ (SameRun I) fs fs')
    (h' : List.Forall₂ (SameRun I) fs' fs'') : List.Forall₂ (SameRun I) fs fs'' := by
  induction h generalizing fs'' with
  | nil => exact h'
  | cons hf _ ih =>
    cases h' with
    | cons hf' h' => exact .cons (hf.trans hf') (ih h')

/-- One round keeps what functions do. -/
theorem forall₂_sameRun_shader (hs : ∀ f ∈ s.functions, Solid (exprsAll f.body))
    (h : ∀ x ∈ s.functions.flatMap fun f => bodyHoists f.body, x.Independent I) :
    List.Forall₂ (SameRun I) s.functions (Minify.shader s).value.functions := by
  rw [functions_shader, List.forall₂_map_right_iff, List.forall₂_same]
  intro f hf
  obtain ⟨-, hrun⟩ := same_body (hs f hf) fun x hx => h x (List.mem_flatMap.mpr ⟨f, hf, hx⟩)
  exact ⟨rfl, fun fuel ρ σ => congrFun (hrun fuel ρ) σ⟩

theorem forall₂_sameRun_rounds (k : Nat) (hs : ∀ f ∈ s.functions, Solid (exprsAll f.body))
    (h : ∀ x ∈ s.hoists k, x.Independent I) :
    List.Forall₂ (SameRun I) s.functions (Minify.rounds k s).value.functions := by
  induction k generalizing s with
  | zero => exact List.forall₂_same.mpr fun f _ => ⟨rfl, fun _ _ _ => rfl⟩
  | succ k ih =>
    have hround := forall₂_sameRun_shader hs fun x hx => h x (List.mem_append_left _ hx)
    unfold Minify.rounds
    dsimp only
    split
    · exact hround
    · rename_i hlog
      have hs' : ∀ f ∈ (Minify.shader s).value.functions, Solid (exprsAll f.body) := by
        rw [functions_shader]
        refine List.forall_mem_map.mpr fun f hf => ?_
        exact (same_body (I := I) (hs f hf) fun x hx => h x (List.mem_append_left _
          (List.mem_flatMap.mpr ⟨f, hf, hx⟩))).1
      have hrest := ih hs' fun x hx => h x (List.mem_append_right _ (by rwa [if_neg hlog]))
      exact SameRun.forall₂_trans hround hrest

/-- **Shortening keeps what functions do**: with any values and any meaning of operators and functions,
from any store, the body of a function ends after shortening in the same way and with the same store
as before, unless an assignment was hoisted over a condition that it is not independent of. -/
theorem forall₂_sameRun_minify {source : String} {limits : Limits} {ds : List Diagnostic}
    (h : parse source limits = .ok (s, ds)) (hi : ∀ x ∈ s.hoists maxRounds, x.Independent I) :
    List.Forall₂ (SameRun I) s.functions s.minify.value.functions :=
  forall₂_sameRun_rounds maxRounds (solid_of_parse h) hi

/-- Whole numbers as values, for texts that use no others. -/
def wholeNumbers : Interpretation Int where
  literal
    | .int value => value.toInt
    | .uint value => value.toNat
    | .bool value => value.toNat
    | .float _ => 0
  truth? v := some (v != 0)
  unary?
    | .plus, v => some v
    | .minus, v => some (-v)
    | .not, v => some (if v = 0 then 1 else 0)
    | .bitNot, v => some (-v - 1)
    | .preIncrement, v | .postIncrement, v => some (v + 1)
    | .preDecrement, v | .postDecrement, v => some (v - 1)
  binary?
    | .arith .add, v, w => some (v + w)
    | .arith .sub, v, w => some (v - w)
    | .arith .mul, v, w => some (v * w)
    | .compare .lt, v, w => some (if v < w then 1 else 0)
    | _, _, _ => none
  select? _ _ := none
  replace? _ _ _ := none
  routine _ := .simple fun _ => none

/-- A condition that changes nothing: the assignment is hoisted over it. -/
theorem forall₂_sameRun_minify_hoisted : ∃ s : Shader,
    parse "int x;int y;void main()\x7bif(y<3)x+=y;else x+=2;\x7d" .standard = .ok (s, []) ∧
      s.hoists maxRounds ≠ [] ∧ (∀ x ∈ s.hoists maxRounds, x.Independent wholeNumbers) ∧
      List.Forall₂ (SameRun wholeNumbers) s.functions s.minify.value.functions := by
  obtain ⟨s, hparse, hhoists⟩ := exists_parse
    "int x;int y;void main()\x7bif(y<3)x+=y;else x+=2;\x7d" .standard
    (P := fun s => !(s.hoists maxRounds).isEmpty &&
      decide (∀ x ∈ s.hoists maxRounds, x.Independent wholeNumbers)) (by decide +kernel)
  obtain ⟨hne, hi⟩ := Bool.and_eq_true_iff.mp hhoists
  have hi := of_decide_eq_true hi
  exact ⟨s, hparse, by simpa using hne, hi, forall₂_sameRun_minify hparse hi⟩

/-- What a variable of a whole shader holds after the first function of a shader, if all variables
hold zero before. -/
def resultOf (s : Shader) (name : String) : Option Int := do
  let f ← s.functions.head?
  let (_, σ) ← wholeNumbers.run 0 (fun _ => .none) f.body fun _ => 0
  return σ ⟨name, .none⟩

/-- Hoisted over a condition that increments it, the variable is read too early. -/
theorem exists_resultOf_minify_ne : ∃ s : Shader,
    s.Accepted "int x;void main()\x7bif(x++<3)x+=1;else x+=2;\x7d" .fragment .standard ∧
      s.resultOf "x" = some 2 ∧ s.minify.value.resultOf "x" = some 1 ∧
      ¬ List.Forall₂ (SameRun wholeNumbers) s.functions s.minify.value.functions := by
  have hexists : ∃ s : Shader,
      s.Accepted "int x;void main()\x7bif(x++<3)x+=1;else x+=2;\x7d" .fragment .standard ∧
        decide (s.resultOf "x" = some 2 ∧ s.minify.value.resultOf "x" = some 1) = true :=
    exists_accepted (by decide +kernel)
  obtain ⟨s, haccepted, hresults⟩ := hexists
  obtain ⟨hbefore, hafter⟩ := of_decide_eq_true hresults
  refine ⟨s, haccepted, hbefore, hafter, fun hsame => ?_⟩
  have hresult : s.minify.value.resultOf "x" = s.resultOf "x" := by
    unfold resultOf
    generalize s.functions = fs at hsame ⊢
    generalize s.minify.value.functions = fs' at hsame ⊢
    cases hsame with
    | nil => rfl
    | cons hf _ => simp [hf.run]
  rw [hbefore, hafter] at hresult
  cases hresult

end Shader

end GlslEs
