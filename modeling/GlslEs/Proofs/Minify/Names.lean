import GlslEs.Proofs.Check.Accepted
import GlslEs.Proofs.Minify.Shape

/-!
# Names after shortening

The body of a loop in braces shares the scope of the loop, so a body that loses its outer braces can
declare a name again that the head of the loop declares.  Nothing else that shortening does
changes what a name means.

* `Resolve.Follows`: what is resolved without a finding stays so, with the same names known behind it.
* `Minify.follows_stmt`: **a round of shortening**, if no loop gets a name in its body that its head
  declares.
* `Shader.LoopsApart`: no loop declares a name in its head and again in its body, also once some of
  the braces around the body are gone.
* `Shader.resolve_minify_eq_nil_iff`: **a shader stays without findings exactly if its loops are so.**
-/

namespace GlslEs

namespace Names.Alike

variable {n m k : Names} {taken : List String}

theorem refl (h : n.symbols.isGlobal = false) : n.Alike [] n where
  version := rfl
  functions := rfl
  structs := rfl
  find? _ := rfl
  left := h
  right := h
  free _ _ hname := hname

theorem trans (h : n.Alike taken m) (h' : m.Alike [] k) : n.Alike taken k where
  version := h.version.trans h'.version
  functions := h.functions.trans h'.functions
  structs := h.structs.trans h'.structs
  find? name := (h.find? name).trans (h'.find? name)
  left := h.left
  right := h'.right
  free name hname hfree := h'.free name List.not_mem_nil (h.free name hname hfree)

/-- A scope may be opened on the right only: nothing is taken in it. -/
theorem enter_right (h : n.Alike taken m) {kind : ScopeKind} (hkind : kind ≠ .global) :
    n.Alike taken (m.enter kind) where
  version := h.version
  functions := h.functions
  structs := h.structs
  find? name := by simpa [Names.enter] using h.find? name
  left := h.left
  right := m.isGlobal_enter hkind
  free _ _ _ := rfl

end Names.Alike

namespace Resolve

variable {α β γ : Type} {n m : Names}

/-- What is resolved without a finding on the left is so on the right, with the same names known
behind it. -/
def Follows (act : Resolve α) (act' : Resolve β) : Prop :=
  Relate (Names.Alike []) act act' (Names.Alike [])

namespace Follows

variable {act : Resolve α} {act' : Resolve β}

theorem trans {act'' : Resolve γ} (h : Follows act act')
    (h' : Follows act' act'') : Follows act act'' := by
  intro n m hP hnil
  obtain ⟨hnil', hQ⟩ := h n m hP hnil
  obtain ⟨hnil'', hR⟩ := h' m m (.refl hP.right) hnil'
  exact ⟨hnil'', hQ.trans hR⟩

/-- It is enough to look at one place, if no names are declared. -/
theorem of_run (hrefl : Follows act act)
    (h : ∀ n, (run act n).2.findings = [] →
      (run act' n).2.findings = [] ∧ (run act' n).2.names = (run act n).2.names) :
    Follows act act' := by
  intro n m hP hnil
  obtain ⟨hnil', hQ⟩ := hrefl n m hP hnil
  obtain ⟨hnil'', hnames⟩ := h m hnil'
  exact ⟨hnil'', hnames ▸ hQ⟩

end Follows

theorem follows_refl (inner : Bool) (s : Stmt) : Follows (statement inner s) (statement inner s) :=
  relate_statement inner s (fun _ _ => List.not_mem_nil) fun _ _ _ => List.not_mem_nil

theorem follows_refl_statements (ss : List Stmt) : Follows (statements ss) (statements ss) :=
  relate_statements fun s _ => follows_refl false s

theorem Follows.single {s s' : Stmt} (h : Follows (statement false s) (statement false s')) :
    Follows (statements [s]) (statements [s']) := by
  rw [statements, statements]
  exact h.bind fun _ _ => (follows_refl_statements []).map _ _

theorem run_statements_append (as bs : List Stmt) (n : Names) :
    (run (statements (as ++ bs)) n).2 =
      ⟨(run (statements bs) (run (statements as) n).2.names).2.names,
        (run (statements as) n).2.findings ++
          (run (statements bs) (run (statements as) n).2.names).2.findings⟩ := by
  induction as generalizing n with
  | nil => rfl
  | cons a as ih =>
    rw [List.cons_append, run_statements_cons, run_statements_cons, ih]
    simp

theorem Follows.append {as as' bs bs' : List Stmt} (ha : Follows (statements as) (statements as'))
    (hb : Follows (statements bs) (statements bs')) :
    Follows (statements (as ++ bs)) (statements (as' ++ bs')) := by
  intro n m hP hnil
  rw [run_statements_append] at hnil ⊢
  obtain ⟨hnila, hnilb⟩ := List.append_eq_nil_iff.mp hnil
  obtain ⟨hnila', hQ⟩ := ha n m hP hnila
  obtain ⟨hnilb', hR⟩ := hb _ _ hQ hnilb
  rw [run_statements_append]
  exact ⟨List.append_eq_nil_iff.mpr ⟨hnila', hnilb'⟩, hR⟩

end Resolve

namespace Minify

variable {s : Stmt} {own : List String}

open Resolve Stmt

theorem run_exprStmts (es : List Expr) (n : Names) :
    (run (statements (es.map exprStmt)) n).2 = ⟨n, es.flatMap (Expr.nameFindings n)⟩ := by
  induction es with
  | nil => rfl
  | cons e es ih =>
    rw [List.map_cons, run_statements_cons, exprStmt, run_exprStmt, ih]
    rfl

/-- Joining leaves out no name. -/
theorem nameFindings_joined (n : Names) (es : List Expr) :
    (joined es).nameFindings n = es.flatMap (Expr.nameFindings n) := by
  have hitems : ∀ e : Expr, (items e).flatMap (Expr.nameFindings n) = e.nameFindings n := by
    intro e
    cases e with
    | seq note exprs => rw [items, Expr.nameFindings, Expr.nameFindingsAll_eq_flatMap]
    | _ => simp [items]
  unfold joined
  split
  · simp
  · rw [Expr.nameFindings, Expr.nameFindingsAll_eq_flatMap, List.flatMap_assoc]
    simp only [hitems]

/-- A branch that is a single expression finds what the expression finds. -/
theorem run_within_soleItem {e : Expr} (h : soleItem? s = some e) (n : Names) :
    (run (within .block (statement true s)) n).2 = ⟨n, e.nameFindings n⟩ := by
  have hagree : (n.enter .block).Agree n :=
    ⟨⟨rfl, rfl, rfl⟩, fun name => by simp [Names.enter]⟩
  have hrun : (run (statement true s) (n.enter .block)).2 = ⟨n.enter .block, e.nameFindings n⟩ := by
    rw [← hagree.nameFindings]
    obtain ⟨-, ⟨_, rfl⟩ | ⟨_, loc, rfl⟩⟩ := soleItem?_eq_some h
    · rfl
    · rw [statement, run_map, if_pos rfl, run_statements_cons, run_exprStmt, run_statements_nil]
      simp
  rw [run_within, hrun]
  rfl

/-! ### Folding and joining -/

theorem follows_foldIf {s' : Stmt} (h : foldIf? s = some s') :
    Follows (statement false s) (statement false s') := by
  refine .of_run (follows_refl false s) fun n hnil => ?_
  obtain ⟨loc, c, t, e, a, b, rfl, ht, he, -, rfl⟩ | ⟨loc, c, t, a, rfl, ht, -, rfl⟩ :=
    foldIf?_eq_some h
  · simp only [run_ifElse, run_within_soleItem ht, run_within_soleItem he] at hnil ⊢
    rw [run_exprStmt, Expr.nameFindings, List.append_assoc]
    exact ⟨hnil, rfl⟩
  · simp only [run_ifThen, run_within_soleItem ht] at hnil ⊢
    rw [run_exprStmt, Expr.nameFindings]
    exact ⟨hnil, rfl⟩

/-- Of two targets that are written alike one goes. -/
theorem follows_hoist {s' : Stmt} (h : hoist? s = some s') :
    Follows (statement false s) (statement false s') := by
  refine .of_run (follows_refl false s) fun n hnil => ?_
  obtain ⟨loc, note, c, _, _, op, t, t', v, v', rfl, -, -, -, rfl⟩ := hoist?_eq_some h
  rw [run_exprStmt] at hnil ⊢
  rw [run_exprStmt]
  simp only [Expr.nameFindings, List.append_eq_nil_iff] at hnil ⊢
  obtain ⟨⟨hc, ht, hv⟩, -, hv'⟩ := hnil
  exact ⟨⟨ht, ⟨hc, hv⟩, hv'⟩, trivial⟩

theorem follows_flushed (pending : List Expr) :
    Follows (statements (pending.map exprStmt)) (statements [(flushed pending).value]) := by
  refine .of_run (follows_refl_statements _) fun n hnil => ?_
  rw [run_exprStmts] at hnil ⊢
  rw [run_statements_cons, flushed, run_exprStmt, run_statements_nil, nameFindings_joined]
  exact ⟨by simpa using hnil, rfl⟩

theorem follows_absorb {pending : List Expr} {s' : Stmt} (h : absorb? pending s = some s') :
    Follows (statements (pending.map exprStmt ++ [s])) (statements [s']) := by
  refine .of_run (follows_refl_statements _) fun n hnil => ?_
  have hfront : (run (statements (pending.map exprStmt ++ [s])) n).2 =
      ⟨(run (statement false s) n).2.names,
        pending.flatMap (Expr.nameFindings n) ++ (run (statement false s) n).2.findings⟩ := by
    rw [run_statements_append, run_exprStmts, run_statements_cons, run_statements_nil]
    simp
  rw [hfront] at hnil ⊢
  rw [run_statements_cons, run_statements_nil]
  obtain ⟨loc, e, rfl, -, rfl⟩ | ⟨loc, c, t, rfl, rfl⟩ | ⟨loc, c, t, e, rfl, rfl⟩ :=
    absorb?_eq_some h
  · simp only [run_result, Option.map_some, nameFindings_joined] at hnil ⊢
    simpa using hnil
  · simp only [run_ifThen, nameFindings_joined] at hnil ⊢
    simpa using hnil
  · simp only [run_ifElse, nameFindings_joined] at hnil ⊢
    simpa using hnil

theorem joins_follows : Joins fun as bs => Follows (statements as) (statements bs) where
  refl := follows_refl_statements
  trans := .trans
  append := .append
  item loc e := .single <| .of_run (follows_refl false _) fun n hnil => by
    rw [exprStmt, run_exprStmt, run_exprStmt] at *
    exact ⟨hnil, rfl⟩
  foldIf h := (follows_foldIf h).single
  flushed _ := follows_flushed _
  absorb := follows_absorb

/-! ### Braces -/

/-- Two steps of rewriting a body, one after the other. -/
theorem relate_trans {α β γ : Type} {act : Resolve α} {act' : Resolve β}
    {act'' : Resolve γ} (h : Relate (Names.AlikeWithin own) act act' Names.SameTables)
    (h' : Relate (Names.AlikeWithin own) act' act'' Names.SameTables) :
    Relate (Names.AlikeWithin own) act act'' Names.SameTables := by
  intro n m hP hnil
  obtain ⟨hnil', hQ⟩ := h n m hP hnil
  obtain ⟨hnil'', hR⟩ := h' m m ⟨.refl hP.right, hP.own⟩ hnil'
  exact ⟨hnil'', hQ.version.trans hR.version, hQ.functions.trans hR.functions,
    hQ.structs.trans hR.structs⟩

/-- A block gives up its scope: nothing is declared twice unless the outer scope has a name of it. -/
theorem relate_unscoped {body : List Stmt} (h : ∀ x ∈ own, x ∉ body.flatMap ownNames) :
    Relate (Names.AlikeWithin own) (within .block (statements body)) (statements body)
      Names.SameTables := by
  intro n m hP hnil
  have halike : (n.enter .block).Alike own m := hP.enter_left (by decide) hP.own
  have hbody : Relate (Names.Alike own) (statements body) (statements body) (Names.Alike own) := by
    refine relate_statements fun s hs => relate_statement false s (fun x hx hxown => ?_) (by simp)
    exact h x hxown (List.mem_flatMap.mpr ⟨s, hs, hx⟩)
  obtain ⟨hnil', hQ⟩ := hbody _ _ halike hnil
  exact ⟨hnil', hQ.version, hQ.functions, hQ.structs⟩

/-- Inside braces without a scope of their own there is the same as without the braces. -/
theorem run_singleton_block (loc : Location) (s : Stmt) (n : Names) :
    (run (statement true (.block loc [s])) n).2 = (run (statement false s) n).2 := by
  rw [statement, run_map, if_pos rfl, run_statements_cons, run_statements_nil]
  simp

theorem statement_of_not_isBlock (h : s.isBlock = false) (inner : Bool) :
    statement inner s = statement false s := by
  cases s <;> first | rfl | cases h

/-- The braces of a branch: its scope stays. -/
theorem relate_unbraced (s : Stmt) :
    Relate (Names.AlikeWithin []) (statement true s) (statement true (unbraced s).value)
      Names.SameTables := by
  obtain h | ⟨loc, inner, rfl, h, -⟩ := unbraced_eq s
  · rw [h]
    exact (follows_refl true s).narrow
  · rw [h, Logged.value_noting]
    have hbraces : Relate (Names.AlikeWithin []) (statement false inner) (statement true inner)
        Names.SameTables := by
      cases hblock : inner.isBlock with
      | false =>
        rw [statement_of_not_isBlock hblock true]
        exact (follows_refl false inner).narrow
      | true =>
        obtain ⟨loc', body, rfl⟩ := isBlock_iff.mp hblock
        rw [statement, statement]
        exact (relate_unscoped (by simp)).map _ _
    intro n m hP hnil
    rw [run_singleton_block] at hnil ⊢
    exact hbraces n m hP hnil

/-- The braces of a loop: a block in them comes into the scope of the loop. -/
theorem relate_unbraced_loopBody (hown : ∀ x ∈ own, x ∉ (unbraced s).value.bodyNames) :
    Relate (Names.AlikeWithin own) (loopBody s (statement true s))
      (loopBody (unbraced s).value (statement true (unbraced s).value)) Names.SameTables := by
  obtain h | ⟨loc, inner, rfl, h, -⟩ := unbraced_eq s
  · rw [h]
    exact relate_loopBody rfl (follows_refl true s)
  · rw [h, Logged.value_noting] at hown ⊢
    have hbraces : Relate (Names.AlikeWithin own) (statement false inner)
        (loopBody inner (statement true inner)) Names.SameTables := by
      unfold loopBody
      cases hblock : inner.isBlock with
      | false =>
        rw [if_neg (by simp), statement_of_not_isBlock hblock true]
        intro n m hP hnil
        obtain ⟨hnil', hQ⟩ := follows_refl false inner n (m.enter .block)
          (hP.toAlike.enter_right (by decide)) hnil
        exact ⟨hnil', hQ.version, hQ.functions, hQ.structs⟩
      | true =>
        obtain ⟨loc', body, rfl⟩ := isBlock_iff.mp hblock
        rw [if_pos rfl, statement, statement]
        exact (relate_unscoped hown).map _ _
    intro n m hP hnil
    have hbody : loopBody (.block loc [inner]) (statement true (.block loc [inner])) =
        statement true (.block loc [inner]) := rfl
    rw [hbody, run_singleton_block] at hnil ⊢
    exact hbraces n m hP hnil

/-! ### A round -/

theorem follows_body {ss : List Stmt}
    (h : ∀ s ∈ ss, Follows (statement false s) (statement false (stmt s).value)) :
    Follows (statements ss) (statements (body ss).value) :=
  joins_follows.body (fun s hs => (h s hs).single) fun _ _ =>
    joins_follows.folded fun _ hs => (follows_hoist hs).single

/-- No loop declares a name in its head and again in its body, also once so many of the braces
around the body are gone. -/
def Apart (k : Nat) (ls : List Loop) : Prop :=
  ∀ l ∈ ls, ∀ x ∈ l.names, x ∉ (l.body.peeled k).bodyNames

theorem apart_iff {k : Nat} : Apart k s.loops ↔ ∀ c ∈ s.children,
    (∀ names ∈ s.head?, ∀ x ∈ names, x ∉ (c.peeled k).bodyNames) ∧ Apart k c.loops := forall_loops

/-- **A round of shortening**: what is resolved without a finding stays so, if no loop gets a name
in its body that its head declares. -/
theorem follows_stmt (inner : Bool) (s : Stmt) (h : Apart 1 s.loops) :
    Follows (statement inner s) (statement inner (stmt s).value) := by
  induction s using Stmt.forall_of_children generalizing inner with
  | h s ih =>
    rw [apart_iff] at h
    have hvalue : (stmt s).value = s.withBodies bodyOf fun ss => (body ss).value := by cases s <;> rfl
    rw [hvalue]
    refine relate_withBodies _ (fun _ _ => List.not_mem_nil) (fun c hc => ?_) (fun c hc => ?_)
      fun own hown => ?_
    · refine relate_trans ?_ (relate_unbraced _)
      exact (ih c hc true (h c hc).2).narrow
    · refine relate_trans (relate_loopBody (isBlock_stmt c) (ih c hc true (h c hc).2))
        (relate_unbraced_loopBody fun x hx => ?_)
      rw [show (unbraced (stmt c).value).value.bodyNames = (c.peeled 1).bodyNames from
        bodyNames_peeled_bodyOf 0 c]
      cases hhead : s.head? with
      | none => simp [hhead] at hx
      | some names => exact (h c hc).1 names hhead x (by simpa [hhead] using hx)
    · obtain rfl : own = [] := hown.elim id (·.1)
      exact follows_body fun c hc => ih c hc false (h c hc).2

end Minify

/-! ### Functions and shaders -/

namespace Resolve

theorem follows_declareAll (ss : List Symbol) : Follows (declareAll ss) (declareAll ss) := by
  induction ss with
  | nil => exact .pure _ _
  | cons s ss ih =>
    unfold declareAll
    exact (relate_declare List.not_mem_nil).bind fun _ _ => ih

/-- A scope of its own at one and the same place. -/
theorem relate_within_eq {α β : Type} {act : Resolve α} {act' : Resolve β} [Local act] [Local act']
    (kind : ScopeKind) (hkind : kind ≠ .global) (h : Follows act act') :
    Relate Eq (within kind act) (within kind act') Eq := by
  rintro n _ rfl hnil
  obtain ⟨hnil', hQ⟩ := h _ _ (.refl (n.isGlobal_enter hkind)) hnil
  have hsymbols := symbols_within (n := n) kind hkind act
  have hsymbols' := symbols_within (n := n) kind hkind act'
  refine ⟨hnil', ?_⟩
  have htables : (run (within kind act) n).2.names.SameTables (run (within kind act') n).2.names :=
    ⟨hQ.version, hQ.functions, hQ.structs⟩
  exact htables.eq_of_symbols (hsymbols.trans hsymbols'.symm)

theorem relate_function (f : Function) {body' : List Stmt}
    (h : Follows (statements f.body) (statements body')) :
    Relate Eq (function f) (function { f with body := body' }) Eq := by
  rintro n _ rfl hnil
  rw [function_eq, run_bind, behind_findings, List.append_eq_nil_iff] at hnil
  obtain ⟨hprototype, hbody⟩ := hnil
  have hwithin := relate_within_eq .function (by decide)
    (((follows_declareAll ((run (prototype f.prototype true) n).1.parameters.filterMap
      Parameter.symbol?)).bind fun _ _ => h.bind fun body body' => .pure
        { f with prototype := (run (prototype f.prototype true) n).1, body }
        { f with prototype := (run (prototype f.prototype true) n).1, body := body' })) _ _ rfl hbody
  rw [function_eq, function_eq, run_bind, run_bind, behind_findings, List.append_eq_nil_iff]
  exact ⟨⟨hprototype, hwithin.1⟩, hwithin.2⟩

end Resolve

namespace Minify

open Resolve Stmt

theorem relate_topLevel (d : TopLevel) (h : ∀ f, d = .function f → Apart 1 (loopsAll f.body)) :
    Relate Eq (Resolve.topLevel d) (Resolve.topLevel (topLevel d).value) Eq := by
  have hrefl : Relate Eq (Resolve.topLevel d) (Resolve.topLevel d) Eq := by
    rintro n _ rfl hnil
    exact ⟨hnil, rfl⟩
  cases d with
  | function f =>
    refine Relate.bind (Q := Eq) (relate_function f (follows_stmt true (.block .none f.body) (h f rfl))) fun _ _ => ?_
    exact .pure _ _
  | _ => exact hrefl

end Minify

namespace Shader

variable {k : Nat} {s : Shader} {limits : Limits}

open Resolve Stmt Minify

/-- No loop of a shader declares a name in its head and again in its body, also once so many of the
braces around the body are gone. -/
def LoopsApart (k : Nat) (s : Shader) : Prop :=
  ∀ f ∈ s.functions, Apart k (loopsAll f.body)

instance (k : Nat) (s : Shader) : Decidable (s.LoopsApart k) :=
  inferInstanceAs (Decidable (∀ f ∈ s.functions, ∀ l ∈ loopsAll f.body, ∀ x ∈ l.names,
    x ∉ (l.body.peeled k).bodyNames))

/-- Braces that are dropped in a round are braces that are peeled. -/
theorem loopsApart_shader (k : Nat) (s : Shader) :
    (Minify.shader s).value.LoopsApart k ↔ s.LoopsApart (k + 1) := by
  simp only [LoopsApart, Apart, functions_shader, List.forall_mem_map, loopsAll_body]
  simp only [loopOf, bodyNames_peeled_bodyOf]

theorem LoopsApart.mono (h : s.LoopsApart (k + 1)) : s.LoopsApart k :=
  fun f hf l hl x hx hmem => h f hf l hl x hx (bodyNames_peeled_subset k l.body hmem)

theorem LoopsApart.one (h : s.LoopsApart (k + 1)) : s.LoopsApart 1 := by
  induction k with
  | zero => exact h
  | succ k ih => exact ih h.mono

/-- Where a round does nothing, there is nothing to peel. -/
theorem loopsApart_of_log (h : (Minify.shader s).log = []) (j k : Nat) :
    s.LoopsApart j ↔ s.LoopsApart k := by
  have hnested : ∀ f ∈ s.functions, ∀ l ∈ loopsAll f.body, l.body.isNested = false := by
    intro f hf
    have hlog : (s.declarations.mapM Minify.topLevel).log = [] := (List.append_eq_nil_iff.mp h).1
    rw [Logged.log_mapM, List.flatMap_eq_nil_iff] at hlog
    have hbody := hlog _ (mem_functions.mp hf)
    exact not_isNested_of_log_body (by simpa [Minify.topLevel] using hbody)
  have hpeeled : ∀ k, s.LoopsApart k ↔ ∀ f ∈ s.functions, ∀ l ∈ loopsAll f.body, ∀ x ∈ l.names,
      x ∉ l.body.bodyNames := by
    intro k
    refine forall₂_congr fun f hf => forall₂_congr fun l hl => ?_
    rw [peeled_of_not_isNested (hnested f hf l hl)]
  rw [hpeeled, hpeeled]

/-- The loops after all rounds. -/
theorem loopsApart_rounds (k : Nat) (s : Shader) :
    (Minify.rounds k s).value.LoopsApart 0 ↔ s.LoopsApart k := by
  induction k generalizing s with
  | zero => rfl
  | succ k ih =>
    unfold Minify.rounds
    dsimp only
    split
    · rename_i hlog
      rw [loopsApart_shader]
      exact loopsApart_of_log (List.isEmpty_iff.mp hlog) 1 (k + 1)
    · rw [Logged.value_andThen, ih, loopsApart_shader]

/-- A round of shortening keeps a shader without findings, if its loops are apart. -/
theorem findings_shader (h : s.LoopsApart 1) (hnil : (s.resolution limits).2.findings = []) :
    ((Minify.shader s).value.resolution limits).2.findings = [] := by
  have hrelate : Relate Eq (s.declarations.mapM Resolve.topLevel)
      (s.declarations.mapM fun d => Resolve.topLevel (Minify.topLevel d).value) Eq := by
    refine .mapM fun d hd => relate_topLevel d fun f hf => h f (mem_functions.mpr ?_)
    rwa [← hf]
  rw [shader_value]
  unfold resolution
  rw [List.mapM_map]
  exact (hrelate _ _ rfl hnil).1

theorem findings_rounds (h : s.LoopsApart k) (hnil : (s.resolution limits).2.findings = []) :
    ((Minify.rounds k s).value.resolution limits).2.findings = [] := by
  induction k generalizing s with
  | zero => exact hnil
  | succ k ih =>
    have hround := findings_shader h.one hnil
    unfold Minify.rounds
    dsimp only
    split
    · exact hround
    · exact ih ((loopsApart_shader k s).mpr h) hround

end Shader

/-! ### Loops of a shader without findings -/

namespace Resolve

variable {x : String} {start : LoopStart}

open Stmt Minify

variable {α β : Type} {n : Names}

/-- Where a step inside a function finds nothing wrong, `P` holds. -/
def Ensures (act : Resolve α) (P : Prop) : Prop :=
  ∀ n : Names, n.symbols.isGlobal = false → (run act n).2.findings = [] → P

namespace Ensures

variable {act : Resolve α} {f : α → Resolve β} {P : Prop}

theorem bind_left [∀ a, Adds (f a)] (h : Ensures act P) : Ensures (act >>= f) P := by
  intro n hn hnil
  rw [run_bind, behind_findings, List.append_eq_nil_iff] at hnil
  exact h n hn hnil.1

theorem bind_right [Local act] [∀ a, Adds (f a)] (h : ∀ a, Ensures (f a) P) :
    Ensures (act >>= f) P := by
  intro n hn hnil
  rw [run_bind, behind_findings, List.append_eq_nil_iff] at hnil
  exact h _ _ (extends_of_local act hn).isLocal hnil.2

theorem map {g : α → β} (h : Ensures act P) : Ensures (g <$> act) P := h

theorem within {kind : ScopeKind} (hkind : kind ≠ .global) (h : Ensures act P) :
    Ensures (Resolve.within kind act) P :=
  fun n _ hnil => h (n.enter kind) (n.isGlobal_enter hkind) hnil

end Ensures

/-- Statements without a finding declare nothing that is declared before them in their scope. -/
theorem not_mem_ownNames_of_statements {ss : List Stmt} (hlocal : n.symbols.isGlobal = false)
    (hnil : (run (statements ss) n).2.findings = [])
    (hx : SymbolTable.find n.symbols.current x ≠ none) : x ∉ ss.flatMap ownNames := by
  induction ss generalizing n with
  | nil => simp
  | cons s ss ih =>
    rw [run_statements_cons] at hnil
    obtain ⟨hs, hss⟩ := List.append_eq_nil_iff.mp hnil
    have hextends := extends_of_local (statement false s) hlocal
    have hrest := ih hextends.isLocal hss (hextends.find_ne_none hx)
    rw [List.flatMap_cons, List.mem_append, not_or]
    refine ⟨fun hown => ?_, hrest⟩
    cases s with
    | decl loc d =>
      rw [statement, run_bind, behind_findings, List.append_eq_nil_iff] at hs
      obtain ⟨-, -, -, hfree⟩ := current_declaration hs.1
      exact hx (hfree x hown)
    | _ => cases hown

/-- What the head of a loop declares is declared behind it. -/
theorem find_ne_none_of_loopStart
    (hnil : (run (loopStart start) n).2.findings = []) (hx : x ∈ start.names) :
    SymbolTable.find (run (loopStart start) n).2.names.symbols.current x ≠ none := by
  cases start with
  | decl loc d =>
    rw [loopStart, run_bind, behind_findings, List.append_eq_nil_iff] at hnil
    obtain ⟨new, hnew, hcurrent, -⟩ := current_declaration hnil.1
    rw [loopStart, run_bind, behind_names, run_pure, hcurrent]
    have hmem : x ∈ new.map (·.name) := by
      rw [hnew, List.mem_reverse]
      exact hx
    obtain ⟨s, hs, rfl⟩ := List.mem_map.mp hmem
    unfold SymbolTable.find
    rw [Ne, List.find?_eq_none]
    exact fun h => h s (List.mem_append_left _ hs) (by simp)
  | _ => cases hx

/-- A loop without a finding declares nothing in its head and again in its body. -/
theorem ensures_forLoop {inner : Bool} {loc : Location}
    {condition step : Option Expr} {body : Stmt} (hx : x ∈ start.names) :
    Ensures (statement inner (.forLoop loc start condition step body)) (x ∉ body.bodyNames) := by
  rw [statement]
  refine .within (by decide) fun n hlocal hnil => ?_
  rw [run_bind, behind_findings, List.append_eq_nil_iff] at hnil
  obtain ⟨hstart, hnil⟩ := hnil
  have hfind := find_ne_none_of_loopStart hstart hx
  have hstartLocal := extends_of_local (loopStart start) hlocal
  rw [run_bind, behind_findings, List.append_eq_nil_iff, run_bind, behind_findings,
    List.append_eq_nil_iff] at hnil
  have hnames : ∀ (e : Option Expr) (n : Names), (run (e.mapM expr) n).2.names = n := by
    intro e n
    cases e <;> rfl
  obtain ⟨-, -, hbody⟩ := hnil
  rw [hnames, hnames] at hbody
  cases body with
  | block loc' body =>
    exact not_mem_ownNames_of_statements hstartLocal.isLocal hbody hfind
  | _ => exact List.not_mem_nil

/-- A statement is resolved without a finding somewhere in a function. -/
def Reached (s : Stmt) : Prop :=
  ∃ inner n, n.symbols.isGlobal = false ∧ (run (statement inner s) n).2.findings = []

/-- What is directly below a statement without findings has none either. -/
theorem ensures_reached (inner : Bool) {s c : Stmt} (hc : c ∈ s.children) :
    Ensures (statement inner s) (Reached c) := by
  have hself (inner : Bool) (c : Stmt) : Ensures (statement inner c) (Reached c) := fun n hlocal hnil =>
    ⟨inner, n, hlocal, hnil⟩
  have hall {body : List Stmt} (hc : c ∈ body) : Ensures (statements body) (Reached c) := by
    induction body with
    | nil => cases hc
    | cons b bs ih =>
      rw [statements]
      rcases List.mem_cons.mp hc with rfl | hc
      · exact .bind_left (hself false c)
      · exact .bind_right fun _ => .bind_left (ih hc)
  have hloop (c : Stmt) : Ensures (loopBody c (statement true c)) (Reached c) := by
    unfold loopBody
    split
    · exact hself true c
    · exact (hself true c).within (by decide)
  cases s with
  | block loc body =>
    rw [statement]
    refine .map ?_
    cases inner with
    | true => exact hall hc
    | false => exact (hall hc).within (by decide)
  | switch loc selector bodyLoc body =>
    rw [statement]
    exact .bind_right fun _ => .bind_left ((hall hc).within (by decide))
  | ifThen loc condition thenBranch =>
    obtain rfl := List.mem_singleton.mp hc
    rw [statement]
    exact .bind_right fun _ => .map ((hself true _).within (by decide))
  | ifElse loc condition thenBranch elseBranch =>
    rw [statement]
    rcases List.mem_cons.mp hc with rfl | hc
    · exact .bind_right fun _ => .bind_left ((hself true _).within (by decide))
    · obtain rfl := List.mem_singleton.mp hc
      exact .bind_right fun _ => .bind_right fun _ => .map ((hself true _).within (by decide))
  | forLoop loc start condition step body =>
    obtain rfl := List.mem_singleton.mp hc
    rw [statement]
    exact .within (by decide) (.bind_right fun _ => .bind_right fun _ => .bind_right fun _ => .map (hloop _))
  | whileLoop loc condition body =>
    obtain rfl := List.mem_singleton.mp hc
    rw [statement]
    exact .within (by decide) (.bind_right fun _ => .map (hloop _))
  | doWhile loc body condition =>
    obtain rfl := List.mem_singleton.mp hc
    rw [statement]
    exact .within (by decide) (.bind_right fun _ => .bind_left (hloop _))
  | _ => cases hc

/-- **The loops of a statement without findings are apart.** -/
theorem ensures_apart (inner : Bool) (s : Stmt) : Ensures (statement inner s) (Apart 0 s.loops) := by
  induction s using Stmt.forall_of_children generalizing inner with
  | h s ih =>
    refine fun n hlocal hnil => apart_iff.mpr fun c hc => ⟨fun names hnames x hx => ?_, ?_⟩
    · cases s with
      | forLoop loc start condition step body =>
        cases hnames
        obtain rfl := List.mem_singleton.mp hc
        exact ensures_forLoop hx n hlocal hnil
      | _ => cases hnames
    · obtain ⟨inner', n', hlocal', hnil'⟩ := ensures_reached inner hc n hlocal hnil
      exact ih c hc inner' n' hlocal' hnil'

theorem ensures_apart_statements (ss : List Stmt) :
    Ensures (statements ss) (Apart 0 (loopsAll ss)) := ensures_apart true (.block .none ss)

theorem apart_of_function {f : Function} (hnil : (run (function f) n).2.findings = []) :
    Apart 0 (loopsAll f.body) := by
  rw [function_eq, run_bind, behind_findings, List.append_eq_nil_iff] at hnil
  have hbody : Ensures (do
      declareAll ((run (prototype f.prototype true) n).1.parameters.filterMap Parameter.symbol?)
      return { f with prototype := (run (prototype f.prototype true) n).1, body := ← statements f.body })
      (Apart 0 (loopsAll f.body)) := .bind_right fun _ => (ensures_apart_statements f.body).bind_left
  exact hbody _ (Names.isGlobal_enter _ (by decide)) hnil.2

theorem findings_of_mapM {act : α → Resolve β} [∀ a, Adds (act a)] {xs : List α} {x : α}
    (hx : x ∈ xs) (hnil : (run (xs.mapM act) n).2.findings = []) :
    ∃ n', (run (act x) n').2.findings = [] := by
  induction xs generalizing n with
  | nil => cases hx
  | cons y ys ih =>
    rw [run_mapM_cons] at hnil
    obtain ⟨hy, hys⟩ := List.append_eq_nil_iff.mp hnil
    rcases List.mem_cons.mp hx with rfl | hx
    · exact ⟨n, hy⟩
    · exact ih hx hys

end Resolve

namespace Shader

open Resolve

variable {source : String} {limits : Limits} {s : Shader}

theorem loopsApart_of_findings (hnil : (s.resolution limits).2.findings = []) : s.LoopsApart 0 := by
  intro f hf
  obtain ⟨n, hn⟩ := findings_of_mapM (mem_functions.mp hf) hnil
  rw [Resolve.topLevel, run_bind, behind_findings, List.append_eq_nil_iff] at hn
  exact apart_of_function hn.1

/-- **Shortening keeps the names of a shader exactly if its loops are apart**: a shader that is read
without a finding about its names has none after shortening either, unless the body of a loop,
without the braces that are dropped around it, declares a name that the head of the loop
declares. -/
theorem resolve_minify_eq_nil_iff (h : parse source limits = .ok (s, [])) :
    (s.minify.value.resolve limits).2 = [] ↔ s.LoopsApart Minify.maxRounds := by
  have hnil : (s.resolution limits).2.findings = [] := by
    rw [← resolve_eq_nil_iff, resolve_of_parse h]
  rw [resolve_eq_nil_iff]
  constructor
  · intro hminified
    exact (loopsApart_rounds Minify.maxRounds s).mp (loopsApart_of_findings hminified)
  · exact fun hapart => findings_rounds hapart hnil

/-- A loop whose body declares another name than its head, inside braces that are dropped. -/
theorem resolve_minify_eq_nil_iff_otherName : ∃ s : Shader,
    parse "void main()\x7bfor(int i=0;i<3;i++)\x7b\x7bint j=i;j++;\x7d\x7d\x7d" .standard = .ok (s, []) ∧
      s.LoopsApart Minify.maxRounds ∧ (s.minify.value.resolve .standard).2 = [] := by
  obtain ⟨s, hparse, hapart⟩ := exists_parse
    "void main()\x7bfor(int i=0;i<3;i++)\x7b\x7bint j=i;j++;\x7d\x7d\x7d" .standard
    (P := fun s => decide (s.LoopsApart Minify.maxRounds)) (by decide +kernel)
  have hapart := of_decide_eq_true hapart
  exact ⟨s, hparse, hapart, (resolve_minify_eq_nil_iff hparse).mpr hapart⟩

/-- Without its outer braces the body of this loop declares the variable of the head again. -/
theorem exists_resolve_minify_ne_nil : ∃ s : Shader,
    parse "void main()\x7bfor(int i=0;i<3;i++)\x7b\x7bint i=1;i++;\x7d\x7d\x7d" .standard = .ok (s, []) ∧
      (s.minify.value.resolve .standard).2.map (·.code) = [.redefinition] := by
  obtain ⟨s, hparse, hcodes⟩ := exists_parse
    "void main()\x7bfor(int i=0;i<3;i++)\x7b\x7bint i=1;i++;\x7d\x7d\x7d" .standard
    (P := fun s => decide ((s.minify.value.resolve .standard).2.map (·.code) = [.redefinition]))
    (by decide +kernel)
  exact ⟨s, hparse, of_decide_eq_true hcodes⟩

end Shader

end GlslEs
