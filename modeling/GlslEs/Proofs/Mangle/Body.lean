import GlslEs.Proofs.Mangle.Follow

/-!
# Renamed statements

Resolving a renamed statement changes nothing and finds nothing, and its names refer to the same
declarations.  Scopes are cut differently by the walk and while resolving: the walk opens one for every
pair of braces.  As what is declared in a scope is gone behind it, only declarations have to be followed
step by step.

* `Setting.Carries`: what holds of a renamed statement.
* `Setting.carries_stmt`: **it holds of all statements.**
-/

namespace GlslEs

open Resolve

namespace Setting

variable {c : Setting} {n m : Names} {w : Walk}

/-- The renamed statement is settled, its names refer to the same declarations, and the places behind
it fit together; behind a block that shares a scope only the structures are followed. -/
structure Carries (c : Setting) (inner : Bool) (s : Stmt) (n : Names) (w : Walk) (m : Names) : Prop where
  settled : Settled (statement inner) m (Walking.stmt s c.plan w).1
  bindings : siteBindings ((Walking.stmt s c.plan w).1.sites inner m) = siteBindings (s.sites inner n)
  structs : (after (statement inner (Walking.stmt s c.plan w).1) m).structs =
    (after (statement inner s) n).structs
  follows : inner = false → c.Follows (after (statement inner s) n) (Walking.stmt s c.plan w).2
    (after (statement inner (Walking.stmt s c.plan w).1) m)

/-- A scope may be opened in all three places. -/
theorem Follows.inner (h : c.Follows n w m) (kind : ScopeKind) (hkind : kind ≠ .global) :
    c.Follows (n.enter kind) { w with scopes := w.scopes.enter } (m.enter kind) :=
  (h.enter hkind).enterWalk

/-- What is behind an expression fits together as before. -/
theorem Follows.behindExpr (h : c.Follows n w m) (e : Expr) : c.Follows n (Walking.expr e c.plan w).2 m :=
  h.notice _

theorem Follows.behindOption (h : c.Follows n w m) (e : Option Expr) :
    c.Follows n (e.mapM Walking.expr c.plan w).2 m := by
  cases e with
  | none => exact h
  | some e => exact h.behindExpr e

/-- A renamed expression that may be missing. -/
theorem carries_option (h : c.Follows n w m) {e : Option Expr} (he : ∀ x ∈ e, Settled expr n x) :
    (∀ x ∈ (e.mapM Walking.expr c.plan w).1, Settled expr m x) ∧
      (e.mapM Walking.expr c.plan w).1.toList.flatMap (Expr.bindings m) =
        e.toList.flatMap (Expr.bindings n) := by
  rw [Walking.option_value]
  exact h.carries.option he

/-- The structures behind two steps, told from what they give. -/
theorem structs_eq {α : Type} {act act' : Resolve α} {x y : α × Resolution} (hx : run act m = x)
    (hy : run act' n = y) (h : x.2.names.structs = y.2.names.structs) :
    (after act m).structs = (after act' n).structs := by
  rw [after, hx, h, after, hy]

/-- A statement that is no declaration: what is behind it fits together, if the structures do. -/
theorem Carries.of (h : c.Follows n w m) {inner : Bool} {s : Stmt} (hdecl : ∀ loc d, s ≠ .decl loc d)
    (hbound : w.next + s.declared.length ≤ c.total)
    (hsettled : Settled (statement inner) m (Walking.stmt s c.plan w).1)
    (hbindings : siteBindings ((Walking.stmt s c.plan w).1.sites inner m) =
      siteBindings (s.sites inner n))
    (hstructs : (after (statement inner (Walking.stmt s c.plan w).1) m).structs =
      (after (statement inner s) n).structs) : c.Carries inner s n w m where
  settled := hsettled
  bindings := hbindings
  structs := hstructs
  follows hinner := by
    have hdecl' : ∀ loc d, (Walking.stmt s c.plan w).1 ≠ .decl loc d := by
      intro loc d heq
      cases s with
      | decl loc' d' => exact hdecl loc' d' rfl
      | _ => cases heq
    have hnext := (@Walking.numbers_stmt [] s).next c.plan w
    exact h.restore (extends_of_local (statement inner s) h.left)
      (extends_of_local (statement inner (Walking.stmt s c.plan w).1) h.right)
      (symbols_after_statement hdecl (.inl hinner)) (symbols_after_statement hdecl' (.inl hinner))
      hstructs (Walking.scopes_stmt hdecl c.plan w) (by omega) (by omega)

/-- Statements one after the other. -/
theorem carries_stmts {ss : List Stmt}
    (ih : ∀ s ∈ ss, ∀ n w m, c.Follows n w m → Settled (statement false) n s →
      (∀ x ∈ s.sites false n, x.isFixed c.plan.naming = true) → w.next + s.declared.length ≤ c.total →
      c.Carries false s n w m)
    (h : c.Follows n w m) (hss : Settled statements n ss)
    (hfixed : ∀ x ∈ Stmt.sitesAll n ss, x.isFixed c.plan.naming = true)
    (hbound : w.next + (Stmt.declaredAll ss).length ≤ c.total) :
    Settled statements m (Walking.stmts ss c.plan w).1 ∧
      siteBindings (Stmt.sitesAll m (Walking.stmts ss c.plan w).1) = siteBindings (Stmt.sitesAll n ss) ∧
      c.Follows (after (statements ss) n) (Walking.stmts ss c.plan w).2
        (after (statements (Walking.stmts ss c.plan w).1) m) := by
  induction ss generalizing n w m with
  | nil => exact ⟨settled_statements_nil, rfl, h⟩
  | cons s ss ihs =>
    obtain ⟨hs, hss⟩ := settled_statements_cons.mp hss
    rw [Stmt.declaredAll, List.length_append] at hbound
    rw [Stmt.sitesAll] at hfixed
    have hfirst := ih s List.mem_cons_self n w m h hs
      (fun x hx => hfixed x (List.mem_append_left _ hx)) (by omega)
    obtain ⟨hsettled, hbindings, hfollows⟩ := ihs
      (fun x hx => ih x (List.mem_cons_of_mem _ hx)) (hfirst.follows rfl) hss
      (fun x hx => hfixed x (List.mem_append_right _ hx)) (by
        rw [(@Walking.numbers_stmt [] s).next]
        omega)
    have hwalk : Walking.stmts (s :: ss) c.plan w =
        ((Walking.stmt s c.plan w).1 :: (Walking.stmts ss c.plan (Walking.stmt s c.plan w).2).1,
          (Walking.stmts ss c.plan (Walking.stmt s c.plan w).2).2) := by
      rw [Walking.stmts]
      rfl
    rw [hwalk]
    refine ⟨settled_statements_cons.mpr ⟨hfirst.settled, hsettled⟩, ?_, ?_⟩
    · rw [Stmt.sitesAll, Stmt.sitesAll, siteBindings_append, siteBindings_append, hfirst.bindings,
        hbindings]
    · rw [after_statements_cons, after_statements_cons]
      exact hfollows

/-- What is behind a branch in a scope of its own fits together. -/
theorem Carries.behind (h : c.Follows n w m) {s : Stmt} (hbound : w.next + s.declared.length ≤ c.total)
    (hs : c.Carries true s (n.enter .block) { w with scopes := w.scopes.enter } (m.enter .block)) :
    c.Follows (after (within .block (statement true s)) n) (Walking.within (Walking.stmt s) c.plan w).2
      (after (within .block (statement true
        (Walking.stmt s c.plan { w with scopes := w.scopes.enter }).1)) m) := by
  have hnext := (Walking.numbers_within (@Walking.numbers_stmt [] s)).next c.plan w
  exact h.restore (extends_of_local _ h.left) (extends_of_local _ h.right)
    (symbols_within .block (by decide) _) (symbols_within .block (by decide) _) hs.structs
    (Walking.scopes_within (@Walking.numbers_stmt [] s) c.plan w) (by omega) (by omega)

/-- The first part of a loop head. -/
theorem carries_loopStart {start : LoopStart} (h : c.Follows n w m) (hstart : Settled loopStart n start)
    (hfixed : ∀ x ∈ start.sites n, x.isFixed c.plan.naming = true)
    (hbound : w.next + start.declared.length ≤ c.total) :
    Settled loopStart m (Walking.loopStart start c.plan w).1 ∧
      siteBindings ((Walking.loopStart start c.plan w).1.sites m) = siteBindings (start.sites n) ∧
      c.Follows (after (loopStart start) n) (Walking.loopStart start c.plan w).2
        (after (loopStart (Walking.loopStart start c.plan w).1) m) := by
  cases start with
  | absent | empty loc => exact ⟨⟨rfl, rfl⟩, rfl, h⟩
  | expr loc e =>
    obtain ⟨hsettled, hbindings⟩ := h.carries.expr (settled_loopStart_expr.mp hstart)
    exact ⟨settled_loopStart_expr.mpr hsettled, congrArg (· ++ []) hbindings, h.notice _⟩
  | decl loc d =>
    obtain ⟨hsettled, hbindings, hfollows⟩ :=
      carries_declaration h (settled_loopStart_decl.mp hstart) hfixed hbound
    exact ⟨settled_loopStart_decl.mpr hsettled, hbindings, hfollows⟩

/-- The body of a loop stands in the scope of its head, or in one of its own. -/
theorem Follows.inBody (h : c.Follows n w m) (body : Stmt) :
    c.Follows (n.inBody body) w (m.inBody (Walking.stmt body c.plan w).1) := by
  have hblock : (Walking.stmt body c.plan w).1.isBlock = body.isBlock := by cases body <;> rfl
  unfold Names.inBody
  rw [hblock]
  split
  · exact h
  · exact h.enter (by decide)

/-- **Renamed statements are settled, and their names refer to the same declarations.** -/
theorem carries_stmt (inner : Bool) (s : Stmt) (h : c.Follows n w m) (hs : Settled (statement inner) n s)
    (hfixed : ∀ x ∈ s.sites inner n, x.isFixed c.plan.naming = true)
    (hbound : w.next + s.declared.length ≤ c.total) : c.Carries inner s n w m := by
  induction s generalizing inner n w m with
  | expr loc e =>
    obtain ⟨hsettled, hbindings⟩ := h.carries.expr (settled_stmt_expr.mp hs)
    refine .of h (by simp) hbound (settled_stmt_expr.mpr hsettled) ?_ h.types.structs
    exact congrArg (· ++ []) hbindings
  | decl loc d =>
    obtain ⟨hsettled, hbindings, hfollows⟩ :=
      carries_declaration h (settled_stmt_decl.mp hs) hfixed hbound
    exact ⟨settled_stmt_decl.mpr hsettled, hbindings, hfollows.types.structs, fun _ => hfollows⟩
  | block loc body ih =>
    have hfollows : c.Follows (if inner then n else n.enter .block) { w with scopes := w.scopes.enter }
        (if inner then m else m.enter .block) := by
      cases inner
      · exact h.inner .block (by decide)
      · exact h.enterWalk
    obtain ⟨hsettled, hbindings, hafter⟩ := carries_stmts
      (fun s hs n w m h hs' => ih s hs false h hs') hfollows (settled_block.mp hs) hfixed hbound
    refine .of h (by simp) hbound (settled_block.mpr hsettled) hbindings ?_
    cases inner <;> exact hafter.types.structs
  | ifThen loc condition thenBranch ih =>
    obtain ⟨hcondition, hthen⟩ := settled_ifThen.mp hs
    obtain ⟨hsettled, hbindings⟩ := h.carries.expr hcondition
    have hbranch := ih true ((h.behindExpr condition).inner .block (by decide)) hthen
      (fun x hx => hfixed x (List.mem_cons_of_mem _ hx)) hbound
    exact .of h (by simp) hbound (settled_ifThen.mpr ⟨hsettled, hbranch.settled⟩)
      (congrArg₂ (· ++ ·) hbindings hbranch.bindings) (structs_eq run_ifThen run_ifThen hbranch.structs)
  | ifElse loc condition thenBranch elseBranch iht ihe =>
    obtain ⟨hcondition, hthen, helse⟩ := settled_ifElse.mp hs
    obtain ⟨hsettled, hbindings⟩ := h.carries.expr hcondition
    rw [Stmt.declared, List.length_append] at hbound
    have hfirst := iht true ((h.behindExpr condition).inner .block (by decide)) hthen
      (fun x hx => hfixed x (List.mem_cons_of_mem _ (List.mem_append_left _ hx)))
      (show w.next + thenBranch.declared.length ≤ c.total by omega)
    have hbehind := hfirst.behind (h.behindExpr condition)
      (show w.next + thenBranch.declared.length ≤ c.total by omega)
    have hsecond := ihe true (hbehind.inner .block (by decide)) helse
      (fun x hx => hfixed x (List.mem_cons_of_mem _ (List.mem_append_right _ hx))) (by
        have hnext := (Walking.numbers_within (@Walking.numbers_stmt [] thenBranch)).next c.plan
          (Walking.expr condition c.plan w).2
        have hstart : (Walking.expr condition c.plan w).2.next = w.next := rfl
        show (Walking.within (Walking.stmt thenBranch) c.plan _).2.next + _ ≤ _
        omega)
    refine .of h (by simp) (by rw [Stmt.declared, List.length_append]; omega)
      (settled_ifElse.mpr ⟨hsettled, hfirst.settled, hsecond.settled⟩) ?_
      (structs_eq run_ifElse run_ifElse hsecond.structs)
    have hbranches := congrArg₂ (· ++ ·) hfirst.bindings hsecond.bindings
    exact congrArg₂ (· ++ ·) hbindings
      ((siteBindings_append ..).trans (hbranches.trans (siteBindings_append ..).symm))
  | forLoop loc start condition step body ih =>
    obtain ⟨hstart, hcondition, hstep, hbody⟩ := settled_forLoop.mp hs
    rw [Stmt.declared, List.length_append] at hbound
    obtain ⟨hstart', hbindings, hfollows⟩ := carries_loopStart (h.inner .loop (by decide)) hstart
      (fun x hx => hfixed x (List.mem_append_left _ hx))
      (show w.next + start.declared.length ≤ c.total by omega)
    obtain ⟨hcondition', hbindings'⟩ := carries_option hfollows hcondition
    obtain ⟨hstep', hbindings''⟩ := carries_option (hfollows.behindOption condition) hstep
    have hinner := ih true
      (((hfollows.behindOption condition).behindOption step).inBody body) hbody
      (fun x hx => hfixed x (List.mem_append_right _ (List.mem_append_right _ hx))) (by
        rw [(@Walking.numbers_option [] step).next, (@Walking.numbers_option [] condition).next,
          (@Walking.numbers_loopStart [] start).next]
        show w.next + _ + 0 + 0 + _ ≤ _
        omega)
    refine .of h (by simp) (by rw [Stmt.declared, List.length_append]; omega)
      (settled_forLoop.mpr ⟨hstart', hcondition', hstep', hinner.settled⟩) ?_
      (structs_eq run_forLoop run_forLoop hinner.structs)
    rw [Stmt.sites, siteBindings_append, siteBindings_append, siteBindings_map, List.flatMap_append,
      ← hbindings, ← hbindings', ← hbindings'', ← hinner.bindings, ← List.flatMap_append,
      ← siteBindings_map, ← siteBindings_append, ← siteBindings_append]
    rfl
  | whileLoop loc condition body ih | doWhile loc body condition ih =>
    simp only [settled_whileLoop, settled_doWhile] at hs
    obtain ⟨hsettled, hbindings⟩ := (h.inner .loop (by decide)).carries.expr hs.1
    have hinner := ih true (((h.inner .loop (by decide)).behindExpr condition).inBody body) hs.2
      (fun x hx => hfixed x (List.mem_cons_of_mem _ hx)) hbound
    refine .of h (by simp) hbound ?_ (congrArg₂ (· ++ ·) hbindings hinner.bindings) ?_
    · first
      | exact settled_whileLoop.mpr ⟨hsettled, hinner.settled⟩
      | exact settled_doWhile.mpr ⟨hsettled, hinner.settled⟩
    · first
      | exact structs_eq run_whileLoop run_whileLoop hinner.structs
      | exact structs_eq run_doWhile run_doWhile hinner.structs
  | switch loc selector bodyLoc body ih =>
    obtain ⟨hselector, hbody⟩ := settled_switch.mp hs
    obtain ⟨hsettled, hbindings⟩ := h.carries.expr hselector
    obtain ⟨hsettled', hbindings', hafter⟩ := carries_stmts
      (fun s hs n w m h hs' => ih s hs false h hs') ((h.behindExpr selector).inner .block (by decide))
      hbody (fun x hx => hfixed x (List.mem_cons_of_mem _ hx)) hbound
    exact .of h (by simp) hbound (settled_switch.mpr ⟨hsettled, hsettled'⟩)
      (congrArg₂ (· ++ ·) hbindings hbindings') (structs_eq run_switch run_switch hafter.types.structs)
  | label loc value | result loc value =>
    simp only [settled_label, settled_result] at hs
    obtain ⟨hsettled, hbindings⟩ := carries_option h hs
    refine .of h (by simp) hbound ?_ ?_ ?_
    · first | exact settled_label.mpr hsettled | exact settled_result.mpr hsettled
    · exact (siteBindings_map ..).trans (hbindings.trans (siteBindings_map ..).symm)
    · show (after (Option.mapM expr _) m).structs = (after (value.mapM expr) n).structs
      rw [after_option, after_option]
      exact h.types.structs
  | jump loc kind | empty loc => exact .of h (by simp) hbound ⟨rfl, rfl⟩ rfl h.types.structs

end Setting

end GlslEs
