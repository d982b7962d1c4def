import GlslEs.Proofs.Check.Sites
import GlslEs.Proofs.Optimize.Normal
import Mathlib.Algebra.BigOperators.Group.List.Lemmas
import Mathlib.Algebra.Order.Ring.Nat

/-!
# Every rewrite makes a shader smaller

A rule takes away a node of an expression, an expression that is removed leaves an empty statement, and an
empty statement that is dropped is one statement less.  So a shader has lost at least as many nodes and
statements as there were rewrites, and it has not become higher.  Passes that end before their bound end
with a shader to which no rule applies.

* `Shader.weight`: the number of nodes and statements of a shader.
* `Optimize.Progresses`: what each rewrite of a pass costs, and what a pass without one says.
* `Optimize.progresses_stmt`, `Optimize.progresses_shader`: **passes make progress**.
* `Tally.Balanced`: what is counted in all is counted for the rules; each record and each pass keeps it.
* `Optimizer.shader_progress`: **so do all passes together**.
-/

namespace GlslEs

/-! ### Nodes and statements -/

namespace Expr

theorem size_eq (e : Expr) : e.size = (nodesAll e.children).length + 1 := by
  rw [size, nodes_eq_cons, nodesAll_eq_flatMap, List.length_cons]

theorem depth_eq (e : Expr) : e.depth = depthAll e.children + 1 := by
  cases e <;> simp only [depth, depthAll, children] <;> omega

/-- The number of nodes of several expressions. -/
def sizeAll (es : List Expr) : Nat := (nodesAll es).length

@[simp] theorem sizeAll_nil : sizeAll [] = 0 := rfl

@[simp] theorem sizeAll_cons (e : Expr) (es : List Expr) : sizeAll (e :: es) = e.size + sizeAll es := by
  simp [sizeAll, nodesAll, size]

@[simp] theorem sizeAll_append (es es' : List Expr) : sizeAll (es ++ es') = sizeAll es + sizeAll es' := by
  simp [sizeAll, nodesAll_eq_flatMap]

end Expr

/-- The number of statements in the first part of a loop head. -/
def LoopStart.count : LoopStart → Nat
  | .absent => 0
  | _ => 1

namespace Stmt

mutual

/-- The number of statements in a statement, itself among them. -/
def count : Stmt → Nat
  | .block _ body | .switch _ _ _ body => countAll body + 1
  | .ifThen _ _ s | .whileLoop _ _ s | .doWhile _ s _ => count s + 1
  | .ifElse _ _ s t => count s + count t + 1
  | .forLoop _ start _ _ s => start.count + count s + 1
  | .expr .. | .decl .. | .label .. | .result .. | .jump .. | .empty _ => 1

/-- The number of statements in several statements. -/
def countAll : List Stmt → Nat
  | [] => 0
  | s :: ss => count s + countAll ss

end

/-- The number of nodes of expressions and of statements in a statement. -/
def weight (s : Stmt) : Nat := Expr.sizeAll s.exprs + s.count

/-- The number of nodes of expressions and of statements in several statements. -/
def weightAll (ss : List Stmt) : Nat := Expr.sizeAll (exprsAll ss) + countAll ss

theorem weightAll_cons (s : Stmt) (ss : List Stmt) : weightAll (s :: ss) = s.weight + weightAll ss := by
  simp only [weightAll, weight, exprsAll, countAll, Expr.sizeAll_append]
  omega

theorem maxDepth_eq (es : List Expr) : maxDepth es = Expr.depthAll es := by
  have hfold : ∀ n, es.foldl (fun n e => max n e.depth) n = max n (Expr.depthAll es) := by
    induction es with
    | nil => simp [Expr.depthAll]
    | cons e es ih =>
      intro n
      rw [List.foldl_cons, ih, Expr.depthAll]
      omega
  rw [maxDepth, hfold, Nat.zero_max]

end Stmt

/-- The number of statements in the body of a function. -/
def TopLevel.count : TopLevel → Nat
  | .function f => Stmt.countAll f.body
  | _ => 0

/-- The height of the highest statement of a function. -/
def TopLevel.depth : TopLevel → Nat
  | .function f => Stmt.depthAll f.body
  | _ => 0

/-- The number of nodes of expressions and of statements in a shader. -/
def Shader.weight (s : Shader) : Nat :=
  Expr.sizeAll (s.declarations.flatMap TopLevel.exprs) + (s.declarations.map TopLevel.count).sum

/-! ### Where no rule applies -/

/-- No rule applies to an expression or below it, as far as passes go. -/
def Expr.Final (rules : List Rule) (e : Expr) : Prop := e.Throughout fun x => ∀ r ∈ rules, r.expr? x = none

/-- No rule applies to the first part of a loop head. -/
def LoopStart.Final (rules : List Rule) (start : LoopStart) : Prop :=
  (∀ e ∈ start.exprs, e.Final rules) ∧ ∀ loc e, start = .expr loc e → ∀ r ∈ rules, r.removes e = false

/-- No rule applies to a statement or below it; the value of a label is not visited, and only the body of a
`switch` statement keeps empty statements. -/
inductive Stmt.Final (rules : List Rule) : Stmt → Prop
  | expr {loc e} (he : e.Final rules) (hkept : ∀ r ∈ rules, r.removes e = false) : Final rules (.expr loc e)
  | decl {loc d} (hd : ∀ e ∈ d.values, e.Final rules) : Final rules (.decl loc d)
  | block {loc body} (hbody : ∀ s ∈ body, Final rules s) (hempty : ∀ s ∈ body, s.isEmpty = false) :
    Final rules (.block loc body)
  | ifThen {loc c s} (hc : c.Final rules) (hs : Final rules s) : Final rules (.ifThen loc c s)
  | ifElse {loc c s t} (hc : c.Final rules) (hs : Final rules s) (ht : Final rules t) :
    Final rules (.ifElse loc c s t)
  | forLoop {loc start condition step s} (hstart : start.Final rules) (hc : ∀ e ∈ condition, e.Final rules)
    (hstep : ∀ e ∈ step, e.Final rules) (hs : Final rules s) : Final rules (.forLoop loc start condition step s)
  | whileLoop {loc c s} (hc : c.Final rules) (hs : Final rules s) : Final rules (.whileLoop loc c s)
  | doWhile {loc c s} (hc : c.Final rules) (hs : Final rules s) : Final rules (.doWhile loc s c)
  | switch {loc c bodyLoc body} (hc : c.Final rules) (hbody : ∀ s ∈ body, Final rules s) :
    Final rules (.switch loc c bodyLoc body)
  | label {loc value} : Final rules (.label loc value)
  | result {loc value} (hvalue : ∀ e ∈ value, e.Final rules) : Final rules (.result loc value)
  | jump {loc kind} : Final rules (.jump loc kind)
  | empty {loc} : Final rules (.empty loc)

/-- No rule applies in the values of global variables or in the body of a function, and no statement there is
empty. -/
def TopLevel.Final (rules : List Rule) : TopLevel → Prop
  | .globals d => ∀ e ∈ d.values, e.Final rules
  | .function f => ∀ s ∈ f.body, s.Final rules ∧ s.isEmpty = false
  | _ => True

/-! ### Rules -/

theorem Rule.Turns.size_lt {rules : List Rule} {e e' : Expr} (h : Turns rules e e') :
    e'.size < e.size ∧ e'.depth ≤ e.depth := by
  cases h with
  | @minus note a b ha hty =>
    have ha := a.size_eq
    simp only [Expr.size, Expr.nodes, Expr.depth, List.length_cons, List.length_append] at ha ⊢
    omega
  | _ => simp only [Expr.size, Expr.nodes, Expr.depth, List.length_cons, List.length_append]; omega

namespace Optimize

variable {α : Type} {rules : List Rule}

/-- The number of rewrites in a log. -/
def rewrites (log : List (String × Nat)) : Nat := (log.map (·.2)).sum

@[simp] theorem rewrites_nil : rewrites [] = 0 := rfl

@[simp] theorem rewrites_cons (entry : String × Nat) (log : List (String × Nat)) :
    rewrites (entry :: log) = entry.2 + rewrites log := List.sum_cons

@[simp] theorem rewrites_append (log log' : List (String × Nat)) :
    rewrites (log ++ log') = rewrites log + rewrites log' := by
  simp [rewrites]

/-- Each rewrite of a pass takes a node or a statement away and makes nothing higher; a pass without one has
nothing to do. -/
structure Progresses (weight depth : α → Nat) (final : α → Prop) (pass : α → Optimized α) (a : α) : Prop where
  weight : rewrites (pass a).log + weight (pass a).value ≤ weight a
  depth : depth (pass a).value ≤ depth a
  final : rewrites (pass a).log = 0 → (pass a).value = a ∧ final a

theorem progresses_settle (n : Nat) (e : Expr) :
    Progresses Expr.size Expr.depth (fun e => 0 < n → ∀ r ∈ rules, r.expr? e = none) (settle rules n) e := by
  induction n generalizing e with
  | zero => exact ⟨by simp [settle], Nat.le_refl _, fun _ => ⟨rfl, fun h => absurd h (Nat.lt_irrefl 0)⟩⟩
  | succ n ih =>
    cases hstep : firstStep? rules e with
    | none =>
      exact ⟨by simp [settle_of_eq_none hstep], by simp [settle_of_eq_none hstep],
        fun _ => ⟨by simp [settle_of_eq_none hstep], fun _ => firstStep?_eq_none_iff.mp hstep⟩⟩
    | some step =>
      have hturns := (turns_of_firstStep? hstep).size_lt
      have hrest := ih step.2
      have hlog : (settle rules (n + 1) e).log = (step.1, 1) :: (settle rules n step.2).log := by
        simp only [settle, hstep, Logged.log_bind]
        rfl
      refine ⟨?_, ?_, fun h => ?_⟩
      · rw [hlog, settle_of_eq_some hstep, rewrites_cons]
        have := hrest.weight
        omega
      · rw [settle_of_eq_some hstep]
        exact hrest.depth.trans hturns.2
      · rw [hlog, rewrites_cons] at h
        omega

namespace Progresses

variable {β γ : Type} {a : α} {b : β} {weight depth : α → Nat} {final : α → Prop} {pass : α → Optimized α}
  {weight' depth' : β → Nat} {final' : β → Prop} {pass' : β → Optimized β} {fin : γ → Prop}
  {g : γ → Optimized γ}

theorem quiet (h : pass a = .quiet a) (hfinal : final a) : Progresses weight depth final pass a where
  weight := by simp [h]
  depth := by simp [h]
  final _ := ⟨by simp [h], hfinal⟩

/-- A tree with two parts, the second after the first. -/
theorem node {f : α → β → γ} {w d : γ → Nat} (ha : Progresses weight depth final pass a)
    (hb : Progresses weight' depth' final' pass' b) (hlog : (g (f a b)).log = (pass a).log ++ (pass' b).log)
    (hvalue : (g (f a b)).value = f (pass a).value (pass' b).value) {k l : Nat}
    (hw : ∀ a b, w (f a b) = weight a + weight' b + k)
    (hd : ∀ a b, d (f a b) = max (depth a) (depth' b) + l) (hfin : final a → final' b → fin (f a b)) :
    Progresses w d fin g (f a b) where
  weight := by
    have := ha.weight
    have := hb.weight
    rw [hlog, hvalue, hw, hw, rewrites_append]
    omega
  depth := by
    have := ha.depth
    have := hb.depth
    rw [hvalue, hd, hd]
    omega
  final h := by
    rw [hlog, rewrites_append, Nat.add_eq_zero_iff] at h
    obtain ⟨hvalueₐ, hfinalₐ⟩ := ha.final h.1
    obtain ⟨hvalue_b, hfinal_b⟩ := hb.final h.2
    exact ⟨by rw [hvalue, hvalueₐ, hvalue_b], hfin hfinalₐ hfinal_b⟩

theorem mapM {W D : List α → Nat} (hW : ∀ a as, W (a :: as) = weight a + W as)
    (hD : ∀ a as, D (a :: as) = max (depth a) (D as)) {as : List α}
    (h : ∀ a ∈ as, Progresses weight depth final pass a) :
    Progresses W D (∀ a ∈ ·, final a) (List.mapM pass) as := by
  induction as with
  | nil => exact quiet rfl (by simp)
  | cons a as ih =>
    obtain ⟨ha, has⟩ := List.forall_mem_cons.mp h
    exact node (f := List.cons) (k := 0) (l := 0) ha (ih has) (by simp) (by simp) hW hD fun h hs =>
      List.forall_mem_cons.mpr ⟨h, hs⟩

/-- A tree with one part. -/
theorem wrap {f : α → γ} {w d : γ → Nat} (ha : Progresses weight depth final pass a)
    (hlog : (g (f a)).log = (pass a).log) (hvalue : (g (f a)).value = f (pass a).value) {k l : Nat}
    (hw : ∀ a, w (f a) = weight a + k) (hd : ∀ a, d (f a) = depth a + l) (hfin : final a → fin (f a)) :
    Progresses w d fin g (f a) :=
  have hunit : Progresses (fun _ => 0) (fun _ => 0) (fun _ => True) (fun _ => .quiet ()) () := quiet rfl trivial
  node (f := fun a _ => f a) ha hunit (by simp [hlog]) hvalue (fun a _ => hw a) (by simpa using hd)
    fun h _ => hfin h

/-- Two trees. -/
theorem pair (ha : Progresses weight depth final pass a) (hb : Progresses weight' depth' final' pass' b) :
    Progresses (fun p => weight p.1 + weight' p.2) (fun p => max (depth p.1) (depth' p.2))
      (fun p => final p.1 ∧ final' p.2) (fun p => do return (← pass p.1, ← pass' p.2)) (a, b) :=
  node (f := Prod.mk) (k := 0) (l := 0) ha hb (by simp) rfl (fun _ _ => rfl) (fun _ _ => rfl) .intro

end Progresses

theorem visited_eq (e : Expr) (f : Expr → Expr) : e.visited = e.children ∧
    (e.mapVisited f).children = e.children.map f ∨ e.visited = [] ∧ e.mapVisited f = e := by
  cases e with
  | call note callee args =>
    cases callee with
    | builtin name => exact .inr ⟨rfl, rfl⟩
    | _ => exact .inl ⟨rfl, rfl⟩
  | _ => exact .inl ⟨rfl, rfl⟩

/-- **A pass over an expression makes progress.** -/
theorem progresses_expr (e : Expr) : Progresses Expr.size Expr.depth (Expr.Final rules) (expr rules) e := by
  induction e using Expr.forall_of_children with
  | h e ih =>
    have htop := @progresses_settle rules stepsPerNode (e.mapVisited fun c => (expr rules c).value)
    have hchildren := Progresses.mapM (W := Expr.sizeAll) (D := Expr.depthAll) Expr.sizeAll_cons
      (fun _ _ => rfl) fun c hc => ih c (e.visited_subset_children hc)
    have hweight := hchildren.weight
    have hdepth := hchildren.depth
    rw [Logged.log_mapM, Logged.value_mapM] at hweight
    rw [Logged.value_mapM] at hdepth
    have hnode : rewrites (e.visited.flatMap fun c => (expr rules c).log) +
        (e.mapVisited fun c => (expr rules c).value).size ≤ e.size ∧
        (e.mapVisited fun c => (expr rules c).value).depth ≤ e.depth := by
      rcases visited_eq e fun c => (expr rules c).value with ⟨hvisited, hmap⟩ | ⟨hvisited, hmap⟩
      · rw [hvisited] at hweight hdepth ⊢
        rw [Expr.size_eq, Expr.size_eq e, Expr.depth_eq, Expr.depth_eq e, hmap]
        simp only [Expr.sizeAll] at hweight
        omega
      · simp [hvisited, hmap]
    refine ⟨?_, ?_, fun hlog => ?_⟩
    · rw [log_expr, value_expr, rewrites_append]
      have := htop.weight
      unfold top
      omega
    · rw [value_expr]
      exact htop.depth.trans hnode.2
    · rw [log_expr, rewrites_append, Nat.add_eq_zero_iff] at hlog
      obtain ⟨hvalues, hfinals⟩ := hchildren.final (by rw [Logged.log_mapM, hlog.1])
      rw [Logged.value_mapM] at hvalues
      have hsame : (e.mapVisited fun c => (expr rules c).value) = e :=
        Expr.mapVisited_eq_self (List.map_inj_left.mp (hvalues.trans (List.map_id _).symm))
      obtain ⟨hvalue, hfinal⟩ := htop.final hlog.2
      rw [value_expr, top, hvalue, hsame]
      exact ⟨rfl, .intro (hsame ▸ hfinal (by decide)) hfinals⟩

/-! ### Statements -/

theorem progresses_expr? (e : Option Expr) : Progresses (fun e => Expr.sizeAll e.toList)
    (fun e => Stmt.maxDepth e.toList) (∀ x ∈ ·, x.Final rules) (expr? rules) e := by
  cases e with
  | none => exact .quiet rfl (by simp)
  | some e =>
    exact (progresses_expr e).wrap (f := some) (k := 0) (l := 0) (by simp [expr?]) rfl (by simp)
      (by simp [Stmt.maxDepth]) (by simp)

theorem progresses_declarator (x : Declarator) : Progresses (fun x => Expr.sizeAll x.value.toList)
    (fun x => Stmt.maxDepth x.value.toList) (fun x => ∀ e ∈ x.value, e.Final rules)
    (fun x => do return { x with value := ← expr? rules x.value }) x :=
  (progresses_expr? x.value).wrap (f := fun value => { x with value }) (k := 0) (l := 0) (by simp) rfl
    (fun _ => rfl) (fun _ => rfl) id

theorem progresses_declaration (d : Declaration) : Progresses (fun d => Expr.sizeAll d.values)
    (fun d => Stmt.maxDepth d.values) (fun d => ∀ e ∈ d.values, e.Final rules) (declaration rules) d := by
  have hdeclarators := Progresses.mapM (W := fun ds => Expr.sizeAll (ds.filterMap (·.value)))
    (D := fun ds => Stmt.maxDepth (ds.filterMap (·.value)))
    (fun x xs => by cases h : x.value <;> simp [h])
    (fun x xs => by cases h : x.value <;> simp [h, Stmt.maxDepth_eq, Expr.depthAll])
    fun x (_ : x ∈ d.declarators) => @progresses_declarator rules x
  refine hdeclarators.wrap (f := fun declarators => { d with declarators }) (g := declaration rules) (k := 0)
    (l := 0) (by simp [declaration]) rfl ?_ ?_ ?_
  · exact fun _ => rfl
  · exact fun _ => rfl
  intro h e he
  obtain ⟨x, hx, he⟩ := List.mem_filterMap.mp he
  exact h x hx e he

/-- An expression that stands as a statement: if it is removed, its nodes are gone. -/
theorem progresses_standing {weight depth : α → Nat} {final : α → Prop} {pass : α → Optimized α}
    {keep : Expr → α} {drop : α} (e : Expr) (hkeep : ∀ e, pass (keep e) = standing rules e keep drop)
    (hweight : ∀ e, weight (keep e) = e.size + 1) (hdepth : ∀ e, depth (keep e) = e.depth + 1)
    (hdrop : weight drop ≤ 1 ∧ depth drop ≤ 1)
    (hfinal : ∀ e, e.Final rules → (∀ r ∈ rules, r.removes e = false) → final (keep e)) :
    Progresses weight depth final pass (keep e) := by
  have he := @progresses_expr rules e
  have hsize := (expr rules e).value.size_eq
  have hw := he.weight
  have hd := he.depth
  cases hremover : remover? rules (expr rules e).value with
  | some r =>
    have hlog : (pass (keep e)).log = (expr rules e).log ++ [(r.name, 1)] := by simp [hkeep, standing, hremover]
    have hvalue : (pass (keep e)).value = drop := by simp [hkeep, standing, hremover]
    refine ⟨?_, ?_, fun h => ?_⟩
    · rw [hlog, hvalue, hweight, rewrites_append, rewrites_cons, rewrites_nil]
      omega
    · rw [hvalue, hdepth]
      omega
    · simp [hlog] at h
  | none =>
    have hlog : (pass (keep e)).log = (expr rules e).log := by simp [hkeep, standing, hremover]
    have hvalue : (pass (keep e)).value = keep (expr rules e).value := by simp [hkeep, standing, hremover]
    refine ⟨?_, ?_, fun h => ?_⟩
    · rw [hlog, hvalue, hweight, hweight]
      omega
    · rw [hvalue, hdepth, hdepth]
      omega
    · obtain ⟨hsame, hfin⟩ := he.final (hlog ▸ h)
      rw [hsame] at hremover hvalue
      exact ⟨hvalue, hfinal e hfin (by simpa [remover?] using hremover)⟩

theorem progresses_loopStart (start : LoopStart) : Progresses (fun s => Expr.sizeAll s.exprs + s.count)
    Stmt.startDepth (LoopStart.Final rules) (loopStart rules) start := by
  cases start with
  | absent | empty loc => exact .quiet rfl ⟨by simp [LoopStart.exprs], by simp⟩
  | expr loc e =>
    refine progresses_standing e (fun _ => rfl) (fun _ => by simp [LoopStart.exprs, LoopStart.count]) (fun _ => rfl)
      ⟨Nat.le_refl _, Nat.le_refl _⟩ fun e he hkept => ⟨by simpa [LoopStart.exprs], ?_⟩
    rintro loc e ⟨⟩
    exact hkept
  | decl loc d =>
    exact (progresses_declaration d).wrap (f := LoopStart.decl loc) (g := loopStart rules) (by simp [loopStart]) rfl
      (fun _ => rfl) (fun _ => rfl) fun h => ⟨h, by simp⟩

theorem rewrites_dropEmpty (ss : List Stmt) : rewrites (dropEmpty ss).log = ss.countP Stmt.isEmpty := by
  have hremoved : ss.length - (ss.filter (!·.isEmpty)).length = ss.countP Stmt.isEmpty := by
    have hlength := ss.length_eq_length_filter_add Stmt.isEmpty
    rw [List.countP_eq_length_filter]
    omega
  simp only [dropEmpty, hremoved]
  split <;> simp [*]

theorem progresses_dropEmpty (ss : List Stmt) : Progresses Stmt.weightAll Stmt.depthAll
    (∀ s ∈ ·, s.isEmpty = false) dropEmpty ss := by
  induction ss with
  | nil => exact .quiet rfl (by simp)
  | cons s ss ih =>
    have hw := ih.weight
    have hd := ih.depth
    rw [rewrites_dropEmpty] at hw
    simp only [dropEmpty] at hw hd
    by_cases hs : s.isEmpty = true
    · have hcount : 1 ≤ s.weight := by
        cases s <;> simp [Stmt.weight, Stmt.count] at hs ⊢ <;> omega
      refine ⟨?_, ?_, fun hlog => ?_⟩
      · rw [rewrites_dropEmpty, List.countP_cons_of_pos hs, Stmt.weightAll_cons]
        simp only [dropEmpty, List.filter_cons_of_neg (p := (!·.isEmpty)) (a := s) (by simp [hs])]
        omega
      · simp only [dropEmpty, Stmt.depthAll, List.filter_cons_of_neg (p := (!·.isEmpty)) (a := s) (by simp [hs])]
        omega
      · simp [rewrites_dropEmpty, hs] at hlog
    · have hself : Progresses Stmt.weight Stmt.depth (·.isEmpty = false) .quiet s :=
        .quiet rfl (Bool.eq_false_iff.mpr hs)
      exact hself.node ih (f := List.cons) (g := dropEmpty) (k := 0) (l := 0) (by simp [dropEmpty, hs])
        (by simp [dropEmpty, hs]) Stmt.weightAll_cons (fun _ _ => rfl) fun h hs => List.forall_mem_cons.mpr ⟨h, hs⟩

theorem Progresses.andThen {weight depth : α → Nat} {final final' : α → Prop} {pass pass' : α → Optimized α} {a : α}
    (h : Progresses weight depth final pass a) (h' : Progresses weight depth final' pass' (pass a).value) :
    Progresses weight depth (fun a => final a ∧ final' a) (fun a => pass a >>= pass') a where
  weight := by
    have := h.weight
    have := h'.weight
    simp only [Logged.log_bind, Logged.value_bind, rewrites_append]
    omega
  depth := h'.depth.trans h.depth
  final hlog := by
    rw [Logged.log_bind, rewrites_append, Nat.add_eq_zero_iff] at hlog
    obtain ⟨hvalue, hfinal⟩ := h.final hlog.1
    obtain ⟨hvalue', hfinal'⟩ := h'.final hlog.2
    rw [hvalue] at hvalue' hfinal'
    exact ⟨by rw [Logged.value_bind, hvalue, hvalue'], hfinal, hfinal'⟩

theorem progresses_stmts {ss : List Stmt}
    (h : ∀ s ∈ ss, Progresses Stmt.weight Stmt.depth (Stmt.Final rules) (stmt rules) s) :
    Progresses Stmt.weightAll Stmt.depthAll (∀ s ∈ ·, s.Final rules) (stmts rules) ss := by
  rw [show stmts rules = List.mapM (stmt rules) from funext stmts_eq_mapM]
  exact .mapM Stmt.weightAll_cons (fun _ _ => rfl) h

/-- **A pass over a statement makes progress.** -/
theorem progresses_stmt (s : Stmt) : Progresses Stmt.weight Stmt.depth (Stmt.Final rules) (stmt rules) s := by
  induction s with
  | expr loc e =>
    exact progresses_standing e (fun _ => rfl) (by simp [Stmt.weight, Stmt.exprs, Stmt.count]) (fun _ => rfl)
      ⟨Nat.le_refl _, Nat.le_refl _⟩ fun e he hkept => .expr he hkept
  | decl loc d =>
    exact (progresses_declaration d).wrap (f := Stmt.decl loc) (g := stmt rules) (by simp [stmt]) rfl
      (fun _ => rfl) (fun _ => rfl) .decl
  | block loc body ih =>
    exact ((progresses_stmts ih).andThen (progresses_dropEmpty _)).wrap (f := Stmt.block loc) (g := stmt rules)
      (k := 1) (by simp [stmt]) rfl (fun _ => by simp [Stmt.weight, Stmt.weightAll, Stmt.exprs, Stmt.count]; omega)
      (fun _ => rfl) fun h => .block h.1 h.2
  | ifThen loc condition s ih =>
    exact (progresses_expr condition).node ih (f := Stmt.ifThen loc) (g := stmt rules) (k := 1) (by simp [stmt]) rfl
      (fun c s => by simp [Stmt.weight, Stmt.exprs, Stmt.count]; omega) (fun _ _ => rfl) .ifThen
  | ifElse loc condition s t ihs iht =>
    exact (progresses_expr condition).node (ihs.pair iht) (f := fun c p => Stmt.ifElse loc c p.1 p.2)
      (w := Stmt.weight) (d := Stmt.depth) (g := stmt rules) (k := 1) (l := 1) (by simp [stmt]) rfl
      (fun c p => by simp [Stmt.weight, Stmt.exprs, Stmt.count]; omega)
      (fun c p => by simp only [Stmt.depth]; omega) fun hc hp => Stmt.Final.ifElse hc hp.1 hp.2
  | forLoop loc start condition step body ih =>
    exact (progresses_loopStart start).node
      ((progresses_expr? condition).pair ((progresses_expr? step).pair ih))
      (f := fun start p => Stmt.forLoop loc start p.1 p.2.1 p.2.2) (w := Stmt.weight) (d := Stmt.depth)
      (g := stmt rules) (k := 1) (l := 1) (by simp [stmt]) rfl
      (fun start p => by simp [Stmt.weight, Stmt.exprs, Stmt.count]; omega)
      (fun start p => by simp only [Stmt.depth]; omega) fun hs hp => Stmt.Final.forLoop hs hp.1 hp.2.1 hp.2.2
  | whileLoop loc condition body ih =>
    exact (progresses_expr condition).node ih (f := Stmt.whileLoop loc) (g := stmt rules) (k := 1) (by simp [stmt])
      rfl (fun c s => by simp [Stmt.weight, Stmt.exprs, Stmt.count]; omega) (fun _ _ => rfl) .whileLoop
  | doWhile loc body condition ih =>
    exact (progresses_expr condition).node ih (f := fun c s => Stmt.doWhile loc s c) (g := stmt rules) (k := 1)
      (by simp [stmt]) rfl (fun c s => by simp [Stmt.weight, Stmt.exprs, Stmt.count]; omega) (fun _ _ => rfl) .doWhile
  | switch loc selector bodyLoc body ih =>
    exact (progresses_expr selector).node (progresses_stmts ih) (f := fun c ss => Stmt.switch loc c bodyLoc ss)
      (g := stmt rules) (k := 1) (by simp [stmt]) rfl
      (fun c s => by simp [Stmt.weight, Stmt.weightAll, Stmt.exprs, Stmt.count]; omega) (fun _ _ => rfl) .switch
  | label loc value => exact .quiet rfl .label
  | result loc value =>
    exact (progresses_expr? value).wrap (f := Stmt.result loc) (g := stmt rules) (by simp [stmt]) rfl
      (fun _ => rfl) (fun _ => rfl) .result
  | jump loc kind => exact .quiet rfl .jump
  | empty loc => exact .quiet rfl .empty

/-! ### Shaders -/

theorem progresses_topLevel (d : TopLevel) : Progresses (fun d => Expr.sizeAll d.exprs + d.count) TopLevel.depth
    (TopLevel.Final rules) (topLevel rules) d := by
  cases d with
  | globals d =>
    have hd := @progresses_declaration rules d
    have hlog : (topLevel rules (.globals d)).log = (declaration rules d).log := by simp [topLevel]
    refine ⟨by rw [hlog]; exact hd.weight, Nat.le_refl 0, fun h => ?_⟩
    obtain ⟨hvalue, hfinal⟩ := hd.final (hlog ▸ h)
    exact ⟨congrArg TopLevel.globals hvalue, hfinal⟩
  | function f =>
    have hbody := (progresses_stmts fun s (_ : s ∈ f.body) => @progresses_stmt rules s).andThen (progresses_dropEmpty _)
    exact hbody.wrap (f := fun body => TopLevel.function { f with body }) (w := fun d => Expr.sizeAll d.exprs + d.count)
      (d := TopLevel.depth) (g := topLevel rules) (k := 0) (l := 0) (by simp [topLevel]) rfl (fun _ => rfl)
      (fun _ => rfl) fun h s hs => ⟨h.1 s hs, h.2 s hs⟩
  | _ => exact .quiet rfl trivial

theorem depth_eq (s : Shader) : s.depth = s.declarations.foldr (fun d n => max d.depth n) 0 := by
  have hfold (n : Nat) : s.functions.foldl (fun n f => max n (Stmt.depthAll f.body)) n =
      max n (s.declarations.foldr (fun d n => max d.depth n) 0) := by
    rw [Shader.functions]
    generalize s.declarations = ds
    induction ds generalizing n with
    | nil => simp
    | cons d ds ih => cases d <;> simp [TopLevel.depth, ih, Nat.max_assoc]
  rw [Shader.depth, hfold, Nat.zero_max]

/-- **A pass over a shader makes progress.** -/
theorem progresses_shader (s : Shader) : Progresses Shader.weight Shader.depth
    (fun s => ∀ d ∈ s.declarations, d.Final rules) (shader rules) s := by
  have hdeclarations := Progresses.mapM
    (W := fun ds => Expr.sizeAll (ds.flatMap TopLevel.exprs) + (ds.map TopLevel.count).sum)
    (D := fun ds => ds.foldr (fun d n => max d.depth n) 0)
    (fun d ds => by simp; omega) (fun d ds => rfl) fun d (_ : d ∈ s.declarations) => @progresses_topLevel rules d
  refine hdeclarations.wrap (f := fun declarations => { s with declarations }) (w := Shader.weight) (d := Shader.depth)
    (g := shader rules) (k := 0) (l := 0) (by simp [shader]) rfl (fun _ => rfl) (fun _ => depth_eq _) ?_
  exact fun h => h

end Optimize

/-! ### Counts -/

namespace Tally

open Optimize (rewrites)

/-- The count of all rewrites is the sum of the counts of the rules. -/
def Balanced (t : Tally) : Prop := t.length = rewrites t.perRule

variable {t t' : Tally}

theorem rewrites_bump (name : String) (count : Nat) (counts : List (String × Nat)) :
    rewrites (bump name count counts) = rewrites counts + count := by
  fun_induction bump name count counts with
  | case1 => simp
  | case2 n rest => simp only [Optimize.rewrites_cons]; omega
  | case3 other n rest hne hlt => simp only [Optimize.rewrites_cons]; omega
  | case4 other n rest hne hge ih => simp only [Optimize.rewrites_cons, ih]; omega

theorem Balanced.record (h : t.Balanced) (entry : String × Nat) : (t.record entry).Balanced := by
  unfold Balanced at h ⊢
  rw [Tally.record, rewrites_bump, h]

theorem balanced_ofLog (log : List (String × Nat)) : (ofLog log).Balanced :=
  List.foldlRecOn log record rfl fun _ h entry _ => h.record entry

theorem length_ofLog (log : List (String × Nat)) : (ofLog log).length = rewrites log := by
  have hfold (t : Tally) : (log.foldl record t).length = t.length + rewrites log := by
    induction log generalizing t with
    | nil => rfl
    | cons entry log ih =>
      rw [List.foldl_cons, ih, record, Optimize.rewrites_cons, Nat.add_assoc]
  rw [ofLog, hfold, Nat.zero_add]

theorem Balanced.absorb (h : t.Balanced) (h' : t'.Balanced) : (t.absorb t').Balanced := by
  have hfold (counts added : List (String × Nat)) :
      rewrites (added.foldl (fun counts entry => bump entry.1 entry.2 counts) counts) =
        rewrites counts + rewrites added := by
    induction added generalizing counts with
    | nil => rfl
    | cons entry added ih => rw [List.foldl_cons, ih, rewrites_bump, Optimize.rewrites_cons, Nat.add_assoc]
  unfold Balanced at h h' ⊢
  rw [Tally.absorb, hfold, h, h']

end Tally

/-! ### All passes -/

namespace Optimizer

open Optimize

variable {α : Type} {weight depth : α → Nat} {final : α → Prop} {pass : α → Optimized α}

/-- All passes, after some that left the counts balanced. -/
theorem toFixpoint_balanced (n : Nat) (a : α) (report : OptimizationReport)
    (hreport : report.applied.Balanced) :
    (toFixpoint pass n a report).2.applied.Balanced := by
  induction n generalizing a report with
  | zero => exact hreport
  | succ n ih =>
    rw [toFixpoint]
    dsimp only
    split
    · exact hreport
    · exact ih _ _ (hreport.absorb (Tally.balanced_ofLog _))

theorem toFixpoint_progress (h : ∀ a, Progresses weight depth final pass a) (n : Nat) (a : α)
    (report : OptimizationReport) (hreport : report.reachedFixpoint = false) :
    let r := toFixpoint pass n a report
    r.2.applied.length + weight r.1 ≤ report.applied.length + weight a ∧ depth r.1 ≤ depth a ∧
      (r.2.reachedFixpoint = true → final r.1) := by
  induction n generalizing a report with
  | zero => exact ⟨Nat.le_refl _, Nat.le_refl _, fun h => absurd (hreport.symm.trans h) Bool.false_ne_true⟩
  | succ n ih =>
    have hw := (h a).weight
    rw [toFixpoint]
    simp only [Tally.length_ofLog]
    split
    · rename_i hlog
      obtain ⟨hvalue, hfinal⟩ := (h a).final hlog
      exact ⟨by dsimp only; omega, (h a).depth, fun _ => hvalue.symm ▸ hfinal⟩
    · obtain ⟨hrest, hdepth, hlast⟩ := ih (pass a).value
        { report with passes := _, applied := report.applied.absorb (.ofLog (pass a).log) } hreport
      refine ⟨hrest.trans ?_, hdepth.trans (h a).depth, hlast⟩
      simp only [Tally.absorb, Tally.length_ofLog]
      omega

end Optimizer

/-- **Rewriting always makes progress.**  Whatever the rules and the number of passes allowed, the rewrites
are counted by the rules, the shader has lost at least as many nodes and statements as there were rewrites, it is
not higher than before, and if the passes ended before their bound no rule applies to it any more. -/
theorem Optimizer.shader_progress (o : Optimizer) (s : Shader) : let r := o.shader s
    r.2.applied.length = (r.2.perRule.map (·.2)).sum ∧ r.2.applied.length + r.1.weight ≤ s.weight ∧
      r.1.depth ≤ s.depth ∧ (r.2.reachedFixpoint = true → ∀ d ∈ r.1.declarations, d.Final o.rules) := by
  obtain ⟨hweight, hdepth, hfinal⟩ :=
    toFixpoint_progress Optimize.progresses_shader (o.passLimit s.depth) s {} rfl
  exact ⟨toFixpoint_balanced _ s {} rfl, hweight.trans (Nat.zero_add _).le, hdepth, hfinal⟩

end GlslEs
