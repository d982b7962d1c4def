import GlslEs.Minify
import GlslEs.Proofs.Logged
import GlslEs.Proofs.Resolve.Alike

/-!
# What shortening keeps

A round of shortening joins and folds statements and drops braces, but it moves no declaration and
no loop: every loop keeps its head, and of its body at most the outermost braces are gone.

* `Stmt.loops`: the loops below a statement, each as the names its head declares and its body.
* `Stmt.peeled`: a body without the braces that hold nothing but a block.
* `Minify.loopsAll_body`: **the loops after a round**.
* `Minify.bodyNames_peeled_bodyOf`: **dropping braces in a round is one step of peeling**.
-/

namespace GlslEs

/-! ### Loops -/

/-- A loop: the names that its head declares, and its body. -/
structure Loop where
  names : List String
  body : Stmt

namespace Stmt

mutual

/-- The loops of a statement and of the statements below it whose heads have three parts. -/
def loops : Stmt → List Loop
  | .block _ body => loopsAll body
  | .ifThen _ _ thenBranch => loops thenBranch
  | .ifElse _ _ thenBranch elseBranch => loops thenBranch ++ loops elseBranch
  | .forLoop _ start _ _ body => ⟨start.names, body⟩ :: loops body
  | .whileLoop _ _ body => loops body
  | .doWhile _ body _ => loops body
  | .switch _ _ _ body => loopsAll body
  | .expr .. | .decl .. | .label .. | .result .. | .jump .. | .empty _ => []

/-- The loops of several statements. -/
def loopsAll : List Stmt → List Loop
  | [] => []
  | s :: ss => loops s ++ loopsAll ss

end

theorem loopsAll_eq_flatMap (ss : List Stmt) : loopsAll ss = ss.flatMap loops := by
  induction ss with
  | nil => rfl
  | cons s ss ih => rw [loopsAll, ih, List.flatMap_cons]

/-- What holds of all loops holds of a statement's own and of those below it. -/
theorem forall_loops {P : Loop → Prop} {s : Stmt} : (∀ l ∈ s.loops, P l) ↔
    ∀ c ∈ s.children, (∀ names ∈ s.head?, P ⟨names, c⟩) ∧ ∀ l ∈ c.loops, P l := by
  cases s with
  | block loc body | switch loc selector bodyLoc body =>
    simp only [loops, head?, children, loopsAll_eq_flatMap, List.mem_flatMap]
    constructor
    · exact fun h c hc => ⟨fun _ hn => absurd hn (by simp), fun l hl => h l ⟨c, hc, hl⟩⟩
    · rintro h l ⟨c, hc, hl⟩
      exact (h c hc).2 l hl
  | _ => simp [loops, head?, children, or_imp, forall_and]

/-- Whether a statement is a pair of braces with nothing but a block in it. -/
def isNested : Stmt → Bool
  | .block _ [.block ..] => true
  | _ => false

/-- A body without the outer ones of its braces that hold nothing but a block, at most so many. -/
def peeled : Nat → Stmt → Stmt
  | k + 1, .block _ [.block loc body] => peeled k (.block loc body)
  | _, s => s

theorem peeled_of_not_isNested {s : Stmt} (h : s.isNested = false) (k : Nat) : s.peeled k = s := by
  cases k with
  | zero => rfl
  | succ k =>
    unfold peeled
    split
    · simp [isNested] at h
    · rfl

/-- Dropping braces around a block only brings out more names. -/
theorem bodyNames_peeled_subset (k : Nat) (s : Stmt) :
    (s.peeled k).bodyNames ⊆ (s.peeled (k + 1)).bodyNames := by
  induction k generalizing s with
  | zero =>
    unfold peeled
    split
    · simp [bodyNames, ownNames]
    · exact List.Subset.refl _
  | succ k ih =>
    cases hs : s.isNested with
    | false =>
      rw [peeled_of_not_isNested hs, peeled_of_not_isNested hs]
      exact List.Subset.refl _
    | true =>
      unfold isNested at hs
      split at hs
      · exact ih _
      · cases hs

end Stmt

namespace Minify

variable {s : Stmt} {e : Expr} {pending : List Expr} {ss : List Stmt}

open Stmt

/-! ### What one step can do -/

/-- An expression as a statement. -/
def exprStmt (e : Expr) : Stmt := .expr e.loc e

theorem item?_eq_some (h : item? s = some e) : ∃ loc, s = .expr loc e ∧ isItemType e.ty = true := by
  unfold item? at h
  split at h
  · split at h
    · cases h
      exact ⟨_, rfl, by assumption⟩
    · cases h
  · cases h

/-- The only expression of a body stands alone or alone in braces. -/
theorem soleItem?_eq_some (h : soleItem? s = some e) :
    isItemType e.ty = true ∧
      ((∃ loc, s = .expr loc e) ∨ ∃ braces loc, s = .block braces [.expr loc e]) := by
  unfold soleItem? at h
  split at h
  · obtain ⟨loc, rfl, hty⟩ := item?_eq_some h
    exact ⟨hty, .inr ⟨_, loc, rfl⟩⟩
  · cases h
  · obtain ⟨loc, rfl, hty⟩ := item?_eq_some h
    exact ⟨hty, .inl ⟨loc, rfl⟩⟩

/-- What folds is a branch whose bodies are single expressions. -/
theorem foldIf?_eq_some {s' : Stmt} (h : foldIf? s = some s') :
    (∃ loc condition thenBranch elseBranch ifTrue ifFalse,
      s = .ifElse loc condition thenBranch elseBranch ∧
      soleItem? thenBranch = some ifTrue ∧ soleItem? elseBranch = some ifFalse ∧
      ifTrue.ty = ifFalse.ty ∧
      s' = .expr loc (.ternary ⟨ifTrue.ty, .empty, loc⟩ condition ifTrue ifFalse)) ∨
    ∃ loc condition thenBranch e,
      s = .ifThen loc condition thenBranch ∧ soleItem? thenBranch = some e ∧ e.ty = .bool ∧
      s' = .expr loc (.binary ⟨.bool, .empty, loc⟩ (.logic .and) condition e) := by
  unfold foldIf? at h
  split at h
  · rename_i loc condition thenBranch elseBranch
    obtain ⟨ifTrue, htrue, h⟩ := Option.bind_eq_some_iff.mp h
    obtain ⟨ifFalse, hfalse, h⟩ := Option.bind_eq_some_iff.mp h
    split at h
    · rename_i hty
      cases h
      exact .inl ⟨_, _, _, _, _, _, rfl, htrue, hfalse, hty, rfl⟩
    · cases h
  · rename_i loc condition thenBranch
    obtain ⟨e, he, h⟩ := Option.bind_eq_some_iff.mp h
    split at h
    · rename_i hty
      cases h
      exact .inr ⟨_, _, _, _, rfl, he, hty, rfl⟩
    · cases h
  · cases h

/-- What is hoisted is an assignment in either branch to targets that are written alike. -/
theorem hoist?_eq_some {s' : Stmt} (h : hoist? s = some s') :
    ∃ loc note condition first second op target target' value value',
      s = .expr loc (.ternary note condition (.assign first op target value)
        (.assign second op target' value')) ∧
      value.ty = value'.ty ∧ target.hasEffects = false ∧ target.text = target'.text ∧
      s' = .expr loc (.assign { first with loc := note.loc } op target
        (.ternary ⟨value.ty, .empty, note.loc⟩ condition value value')) := by
  unfold hoist? at h
  split at h
  · split at h
    · rename_i hcond
      simp only [Bool.and_eq_true, decide_eq_true_eq, Bool.not_eq_true', beq_iff_eq] at hcond
      obtain ⟨⟨⟨rfl, hty⟩, heffects⟩, htext⟩ := hcond
      cases h
      exact ⟨_, _, _, _, _, _, _, _, _, _, rfl, hty, heffects, htext, rfl⟩
    · cases h
  · cases h

/-- What takes up the expressions in front of it keeps everything but its own expression. -/
theorem absorb?_eq_some {s' : Stmt} (h : absorb? pending s = some s') :
    (∃ loc e, s = .result loc (some e) ∧ isItemType e.ty = true ∧
      s' = .result loc (some (joined (pending ++ [e])))) ∨
    (∃ loc condition thenBranch, s = .ifThen loc condition thenBranch ∧
      s' = .ifThen loc (joined (pending ++ [condition])) thenBranch) ∨
    ∃ loc condition thenBranch elseBranch, s = .ifElse loc condition thenBranch elseBranch ∧
      s' = .ifElse loc (joined (pending ++ [condition])) thenBranch elseBranch := by
  unfold absorb? at h
  split at h
  · split at h
    · cases h
      exact .inl ⟨_, _, rfl, by assumption, rfl⟩
    · cases h
  · cases h
    exact .inr (.inl ⟨_, _, _, rfl, rfl⟩)
  · cases h
    exact .inr (.inr ⟨_, _, _, _, rfl, rfl⟩)
  · cases h

/-- Braces are dropped around a single statement that is no declaration and no label. -/
theorem unbraced_eq (s : Stmt) :
    unbraced s = .quiet s ∨
      ∃ loc inner, s = .block loc [inner] ∧ unbraced s = .noting .braces inner ∧
        inner.ownNames = [] := by
  unfold unbraced
  split
  · split
    · exact .inl rfl
    · exact .inl rfl
    · rename_i hdecl hlabel
      refine .inr ⟨_, _, rfl, rfl, ?_⟩
      unfold ownNames
      split
      · exact absurd rfl (hdecl _ _)
      · rfl
  · exact .inl rfl

/-! ### One round -/

theorem value_stmts (ss : List Stmt) : (stmts ss).value = ss.map fun s => (stmt s).value := by
  induction ss with
  | nil => rfl
  | cons s ss ih => simp [stmts, ih]

theorem log_stmts (ss : List Stmt) : (stmts ss).log = ss.flatMap fun s => (stmt s).log := by
  induction ss with
  | nil => rfl
  | cons s ss ih => simp [stmts, ih]

/-- A relation between statements and what they become, which holds of every step of joining. -/
structure Joins (R : List Stmt → List Stmt → Prop) : Prop where
  refl : ∀ ss, R ss ss
  trans : ∀ {as bs cs}, R as bs → R bs cs → R as cs
  append : ∀ {as as' bs bs'}, R as as' → R bs bs' → R (as ++ bs) (as' ++ bs')
  item : ∀ loc e, R [.expr loc e] [exprStmt e]
  foldIf : ∀ {s s'}, foldIf? s = some s' → R [s] [s']
  flushed : ∀ {pending}, pending ≠ [] → R (pending.map exprStmt) [(flushed pending).value]
  absorb : ∀ {pending s s'}, absorb? pending s = some s' → R (pending.map exprStmt ++ [s]) [s']

namespace Joins

variable {R : List Stmt → List Stmt → Prop} {ss : List Stmt} (h : Joins R)

include h

/-- Folding, if hoisting what has been folded is such a step too. -/
theorem folded {s : Stmt} (hhoist : ∀ s', hoist? (attempt .branch foldIf? s).value = some s' →
    R [(attempt .branch foldIf? s).value] [s']) : R [s] [(Minify.folded s).value] := by
  have hattempt {what step s} (hstep : ∀ s', step s = some s' → R [s] [s']) :
      R [s] [(attempt what step s).value] := by
    unfold attempt
    split
    · exact hstep _ ‹_›
    · exact h.refl _
  exact h.trans (hattempt fun _ => h.foldIf) (hattempt hhoist)

/-- Joining statements, with the expressions in front of them still to be written. -/
theorem merge (hfolded : ∀ s ∈ ss, R [s] [(Minify.folded s).value]) (pending : List Expr) :
    R (pending.map exprStmt ++ ss) (Minify.merge pending ss).value := by
  induction ss generalizing pending with
  | nil =>
    rw [List.append_nil]
    unfold Minify.merge
    split
    · rename_i hnil
      rw [List.isEmpty_iff.mp hnil]
      exact h.refl []
    · rename_i hne
      exact h.flushed (by simpa using hne)
  | cons s ss ih =>
    obtain ⟨hs, hss⟩ := List.forall_mem_cons.mp hfolded
    have hpending := h.refl (pending.map exprStmt)
    unfold Minify.merge
    simp only [Logged.value_bind]
    split
    · rename_i e hitem
      obtain ⟨loc, heq, -⟩ := item?_eq_some hitem
      rw [heq] at hs
      refine h.trans ?_ (ih hss (pending ++ [e]))
      simpa using h.append hpending (h.append (h.trans hs (h.item loc e)) (h.refl ss))
    · split
      · rename_i hnil
        rw [List.isEmpty_iff.mp hnil]
        exact h.append hs (ih hss [])
      · rename_i hne
        split
        · simpa using h.append (h.trans (h.append hpending hs) (h.absorb ‹_›)) (ih hss [])
        · simpa using h.append (h.flushed (by simpa using hne)) (h.append hs (ih hss []))

/-- **A round over several statements**, each of which is kept. -/
theorem body (hss : ∀ s ∈ ss, R [s] [(stmt s).value])
    (hfolded : ∀ s ∈ (stmts ss).value, R [s] [(Minify.folded s).value]) : R ss (Minify.body ss).value := by
  have hstmts : R ss (stmts ss).value := by
    clear hfolded
    induction ss with
    | nil => exact h.refl []
    | cons s ss ih =>
      obtain ⟨hs, hss⟩ := List.forall_mem_cons.mp hss
      exact h.append hs (ih hss)
  exact h.trans hstmts (h.merge hfolded [])

end Joins

/-- A list that statements give and that no joining and no folding changes. -/
structure Kept {β : Type} (f : Stmt → List β) : Prop where
  expr : ∀ loc e, f (.expr loc e) = []
  folded : ∀ s s', foldIf? s = some s' → f s = []
  absorbed : ∀ pending s s', absorb? pending s = some s' → f s' = f s

/-- Joining keeps the list. -/
theorem Kept.merge {β : Type} {f : Stmt → List β} (h : Kept f) (ss : List Stmt) :
    (Minify.merge [] ss).value.flatMap f = ss.flatMap f := by
  have hjoins : Joins fun as bs => bs.flatMap f = as.flatMap f := {
    refl := fun _ => rfl
    trans := fun h h' => h'.trans h
    append := fun h h' => by rw [List.flatMap_append, List.flatMap_append, h, h']
    item := fun _ _ => by simp [exprStmt, h.expr]
    foldIf := fun hs => by
      obtain ⟨_, _, _, _, _, _, -, -, -, -, rfl⟩ | ⟨_, _, _, _, -, -, -, rfl⟩ := foldIf?_eq_some hs
      all_goals simp [h.expr, h.folded _ _ hs]
    flushed := fun _ => by simp [flushed, exprStmt, h.expr]
    absorb := fun hs => by simp [exprStmt, h.expr, h.absorbed _ _ _ hs] }
  refine hjoins.merge (fun s _ => hjoins.folded fun s' hs' => ?_) []
  obtain ⟨_, _, _, _, _, _, _, _, _, _, hs, -, -, -, rfl⟩ := hoist?_eq_some hs'
  simp [hs, h.expr]

theorem kept_ownNames : Kept ownNames where
  expr _ _ := rfl
  folded s s' h := by
    obtain ⟨_, _, _, _, _, _, rfl, -⟩ | ⟨_, _, _, _, rfl, -⟩ := foldIf?_eq_some h <;> rfl
  absorbed pending s s' h := by
    obtain ⟨_, _, rfl, -, rfl⟩ | ⟨_, _, _, rfl, rfl⟩ | ⟨_, _, _, _, rfl, rfl⟩ := absorb?_eq_some h <;> rfl

theorem loops_eq_nil_of_soleItem? (h : soleItem? s = some e) : s.loops = [] := by
  obtain ⟨-, ⟨_, rfl⟩ | ⟨_, _, rfl⟩⟩ := soleItem?_eq_some h
  · rfl
  · simp [loops, loopsAll]

theorem kept_loops : Kept loops where
  expr _ _ := by simp [loops]
  folded s s' h := by
    obtain ⟨_, _, _, _, _, _, rfl, ht, he, -⟩ | ⟨_, _, _, _, rfl, ht, -⟩ := foldIf?_eq_some h
    · rw [loops, loops_eq_nil_of_soleItem? ht, loops_eq_nil_of_soleItem? he, List.append_nil]
    · rw [loops, loops_eq_nil_of_soleItem? ht]
  absorbed pending s s' h := by
    obtain ⟨_, _, rfl, -, rfl⟩ | ⟨_, _, _, rfl, rfl⟩ | ⟨_, _, _, _, rfl, rfl⟩ := absorb?_eq_some h <;>
      simp [loops]

theorem ownNames_stmt (s : Stmt) : (stmt s).value.ownNames = s.ownNames := by
  cases s <;> rfl

theorem isBlock_stmt (s : Stmt) : (stmt s).value.isBlock = s.isBlock := by
  cases s <;> rfl

theorem bodyNames_stmt (s : Stmt) : (stmt s).value.bodyNames = s.bodyNames := by
  cases s with
  | block loc body =>
    simp only [stmt, Logged.value_map, Logged.value_andThen, bodyNames]
    rw [kept_ownNames.merge, value_stmts, List.flatMap_map]
    simp only [ownNames_stmt]
  | _ => rfl

/-- The body of a loop or branch after a round. -/
def bodyOf (s : Stmt) : Stmt := (unbraced (stmt s).value).value

theorem loops_unbraced (s : Stmt) : (unbraced s).value.loops = s.loops := by
  obtain h | ⟨_, inner, rfl, h, -⟩ := unbraced_eq s
  · rw [h]
    rfl
  · rw [h, Logged.value_noting, loops, loopsAll, loopsAll, List.append_nil]

/-- A loop after a round. -/
def loopOf (l : Loop) : Loop := ⟨l.names, bodyOf l.body⟩

theorem loopsAll_merge (ss : List Stmt) : loopsAll (merge [] ss).value = loopsAll ss := by
  rw [loopsAll_eq_flatMap, kept_loops.merge, ← loopsAll_eq_flatMap]

theorem loops_stmt (s : Stmt) : (stmt s).value.loops = s.loops.map loopOf := by
  induction s using Stmt.forall_of_children with
  | h s ih =>
    have hall : ∀ body : List Stmt, (∀ c ∈ body, (stmt c).value.loops = c.loops.map loopOf) →
        loopsAll (merge [] (stmts body).value).value = (loopsAll body).map loopOf := by
      intro body hbody
      rw [loopsAll_merge, loopsAll_eq_flatMap, loopsAll_eq_flatMap, value_stmts, List.flatMap_map,
        List.map_flatMap, List.flatMap_def, List.flatMap_def, List.map_congr_left hbody]
    have hbranch : ∀ c ∈ s.children, (bodyOf c).loops = c.loops.map loopOf := fun c hc =>
      (loops_unbraced _).trans (ih c hc)
    cases s with
    | block loc body | switch loc selector bodyLoc body => exact hall body ih
    | ifThen loc condition thenBranch => exact hbranch thenBranch (by simp [children])
    | ifElse loc condition thenBranch elseBranch =>
      have ht := hbranch thenBranch (by simp [children])
      have he := hbranch elseBranch (by simp [children])
      show (bodyOf thenBranch).loops ++ (bodyOf elseBranch).loops = _
      rw [ht, he, loops, List.map_append]
    | forLoop loc start condition step body =>
      have h := hbranch body (by simp [children])
      show ⟨start.names, bodyOf body⟩ :: (bodyOf body).loops = _
      rw [h, loops, List.map_cons]
      rfl
    | whileLoop loc condition body | doWhile loc body condition => exact hbranch body (by simp [children])
    | _ => rfl

/-- **The loops after a round**: each has its head, and its body after the round. -/
theorem loopsAll_body (ss : List Stmt) : loopsAll (body ss).value = (loopsAll ss).map loopOf := by
  have h := loops_stmt (.block .none ss)
  simpa [stmt, loops, body] using h

/-! ### Braces in a round -/

/-- What has been folded is an expression. -/
theorem value_folded_cases (s : Stmt) :
    (folded s).value = s ∨ ∃ loc e, (folded s).value = .expr loc e := by
  have hattempt : ∀ s, (attempt .assignment hoist? s).value = s ∨
      ∃ loc e, (attempt .assignment hoist? s).value = .expr loc e := by
    intro s
    unfold attempt
    split
    · rename_i hs'
      obtain ⟨_, _, _, _, _, _, _, _, _, _, -, -, -, -, rfl⟩ := hoist?_eq_some hs'
      exact .inr ⟨_, _, rfl⟩
    · exact .inl rfl
  obtain h | h := hattempt (attempt .branch foldIf? s).value
  · show (attempt .assignment hoist? (attempt .branch foldIf? s).value).value = s ∨ _
    unfold folded
    rw [Logged.value_andThen, h]
    unfold attempt
    split
    · rename_i hs'
      obtain ⟨_, _, _, _, _, _, -, -, -, -, rfl⟩ | ⟨_, _, _, _, -, -, -, rfl⟩ := foldIf?_eq_some hs'
      · exact .inr ⟨_, _, rfl⟩
      · exact .inr ⟨_, _, rfl⟩
    · exact .inl rfl
  · exact .inr h

theorem merge_eq_nil (h : (merge pending ss).value = []) : pending = [] ∧ ss = [] := by
  induction ss generalizing pending with
  | nil =>
    unfold merge at h
    split at h
    · rename_i hpending
      exact ⟨List.isEmpty_iff.mp hpending, rfl⟩
    · simp at h
  | cons s ss ih =>
    unfold merge at h
    simp only [Logged.value_bind] at h
    split at h
    · simpa using (ih h).1
    · split at h
      · simp at h
      · split at h <;> simp at h

/-- Nothing is joined with a block: statements become a single block only from a single block. -/
theorem merge_eq_singleton_block {loc : Location} {body : List Stmt}
    (h : (merge pending ss).value = [.block loc body]) : pending = [] ∧ ss = [.block loc body] := by
  induction ss generalizing pending with
  | nil =>
    unfold merge at h
    split at h
    · simp at h
    · simp [flushed] at h
  | cons s ss ih =>
    unfold merge at h
    simp only [Logged.value_bind] at h
    split at h
    · simpa using (ih h).1
    · split at h
      · rename_i hpending
        obtain ⟨hs, hss⟩ : (folded s).value = .block loc body ∧ (merge [] ss).value = [] := by
          simpa using h
        obtain hfolded | ⟨_, _, hfolded⟩ := value_folded_cases s
        · rw [hs] at hfolded
          rw [← hfolded, (merge_eq_nil hss).2]
          exact ⟨List.isEmpty_iff.mp hpending, rfl⟩
        · rw [hs] at hfolded
          cases hfolded
      · split at h
        · rename_i s' habsorb
          obtain ⟨rfl, -⟩ : s' = .block loc body ∧ _ := by simpa using h
          obtain ⟨_, _, -, -, h'⟩ | ⟨_, _, _, -, h'⟩ | ⟨_, _, _, _, -, h'⟩ :=
            absorb?_eq_some habsorb <;> cases h'
        · simp at h

theorem isBlock_iff : s.isBlock = true ↔ ∃ loc body, s = .block loc body := by
  cases s <;> simp [Stmt.isBlock]

theorem isNested_stmt (s : Stmt) : (stmt s).value.isNested = s.isNested := by
  cases s with
  | block loc body =>
    rw [Bool.eq_iff_iff]
    constructor
    · intro h
      unfold isNested at h
      split at h
      · rename_i loc' body' hs
        have hmerge : (merge [] (stmts body).value).value = [.block loc' body'] := (Stmt.block.inj hs).2
        obtain ⟨-, hstmts⟩ := merge_eq_singleton_block hmerge
        rw [value_stmts] at hstmts
        obtain ⟨s, rfl, hstmt⟩ : ∃ s, body = [s] ∧ (stmt s).value = .block loc' body' := by
          simpa [List.map_eq_cons_iff] using hstmts
        obtain ⟨_, _, rfl⟩ := isBlock_iff.mp ((isBlock_stmt s).symm.trans (by rw [hstmt]; rfl))
        rfl
      · cases h
    · intro h
      unfold isNested at h
      split at h
      · rename_i hs
        cases hs
        rfl
      · cases h
  | _ => rfl

theorem bodyNames_peeled_stmt (k : Nat) (s : Stmt) :
    ((stmt s).value.peeled k).bodyNames = (s.peeled k).bodyNames := by
  induction k generalizing s with
  | zero => exact bodyNames_stmt s
  | succ k ih =>
    cases hs : s.isNested with
    | false =>
      rw [peeled_of_not_isNested hs, peeled_of_not_isNested ((isNested_stmt s).trans hs),
        bodyNames_stmt]
    | true =>
      unfold isNested at hs
      split at hs
      · rename_i loc' body'
        exact ih (.block loc' body')
      · cases hs

/-- **Dropping braces in a round is one step of peeling**, as far as names are concerned. -/
theorem bodyNames_peeled_bodyOf (k : Nat) (s : Stmt) :
    ((bodyOf s).peeled k).bodyNames = (s.peeled (k + 1)).bodyNames := by
  cases hs : s.isNested with
  | true =>
    unfold isNested at hs
    split at hs
    · exact bodyNames_peeled_stmt k _
    · cases hs
  | false =>
    have hstmt := (isNested_stmt s).trans hs
    rw [peeled_of_not_isNested hs]
    unfold bodyOf
    obtain h | ⟨loc, inner, hinner, h, hnames⟩ := unbraced_eq (stmt s).value
    · rw [h, Logged.value_quiet, peeled_of_not_isNested hstmt, bodyNames_stmt]
    · -- what stood alone in the braces is no block, so it declares nothing outside it
      have hblock : inner.isBlock = false := by
        cases inner with
        | block loc' body' => simp [hinner, isNested] at hstmt
        | _ => rfl
      have hinnerNames : inner.bodyNames = [] := by
        cases inner <;> first | rfl | cases hblock
      have hnested : inner.isNested = false := by
        cases inner <;> first | rfl | cases hblock
      rw [h, Logged.value_noting, peeled_of_not_isNested hnested, hinnerNames, ← bodyNames_stmt s,
        hinner, bodyNames, List.flatMap_cons, hnames]
      rfl

theorem log_of_mem_children {c : Stmt} (h : (stmt s).log = []) (hc : c ∈ s.children) : (stmt c).log = [] := by
  cases s with
  | block loc body | switch loc selector bodyLoc body =>
    simp only [stmt, Logged.log_map, Logged.log_andThen, log_stmts, List.append_eq_nil_iff,
      List.flatMap_eq_nil_iff] at h
    exact h.1 c hc
  | ifElse loc condition thenBranch elseBranch =>
    simp only [stmt, Logged.log_bind, Logged.log_map, Logged.log_andThen, List.append_eq_nil_iff] at h
    simp only [children, List.mem_cons, List.not_mem_nil, or_false] at hc
    rcases hc with rfl | rfl
    · exact h.1.1
    · exact h.2.1
  | ifThen loc condition body | forLoop loc start condition step body | whileLoop loc condition body
  | doWhile loc body condition =>
    simp only [stmt, Logged.log_map, Logged.log_andThen, List.append_eq_nil_iff] at h
    rw [List.mem_singleton.mp hc]
    exact h.1
  | _ => cases hc

/-- Where a round does nothing, there are no braces to drop around the body of a loop. -/
theorem not_isNested_of_log_stmt (h : (stmt s).log = []) :
    ∀ l ∈ s.loops, l.body.isNested = false := by
  induction s using Stmt.forall_of_children with
  | h s ih =>
    refine forall_loops.mpr fun c hc => ⟨fun names hnames => ?_, ih c hc (log_of_mem_children h hc)⟩
    cases s with
    | forLoop loc start condition step body =>
      simp only [stmt, Logged.log_map, Logged.log_andThen, List.append_eq_nil_iff] at h
      rw [List.mem_singleton.mp hc, ← isNested_stmt]
      unfold isNested
      split
      · rename_i hs
        simp [hs, unbraced] at h
      · rfl
    | _ => cases hnames

theorem not_isNested_of_log_body (h : (body ss).log = []) :
    ∀ l ∈ loopsAll ss, l.body.isNested = false :=
  not_isNested_of_log_stmt (s := .block .none ss) (by simpa [stmt, body] using h)

/-! ### Shaders -/

/-- A declaration at the top of a shader, shortened once. -/
def topLevel : TopLevel → Shortened TopLevel
  | .function f => do return .function { f with body := ← body f.body }
  | d => .quiet d

theorem shader_value (s : Shader) :
    (shader s).value = { s with declarations := s.declarations.map fun d => (topLevel d).value } := by
  show ({ s with declarations := (s.declarations.mapM topLevel).value } : Shader) = _
  rw [Logged.value_mapM]

end Minify

namespace Shader

theorem mem_functions {s : Shader} {f : Function} :
    f ∈ s.functions ↔ TopLevel.function f ∈ s.declarations := by
  unfold functions
  rw [List.mem_filterMap]
  constructor
  · rintro ⟨d, hd, hf⟩
    split at hf
    · cases hf
      exact hd
    · cases hf
  · exact fun h => ⟨_, h, rfl⟩

theorem functions_shader (s : Shader) :
    (Minify.shader s).value.functions =
      s.functions.map fun f => { f with body := (Minify.body f.body).value } := by
  rw [Minify.shader_value]
  unfold functions
  simp only [List.filterMap_map, List.map_filterMap]
  refine congrArg (List.filterMap · s.declarations) (funext fun d => ?_)
  cases d <;> rfl

end Shader

end GlslEs
