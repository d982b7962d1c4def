import GlslEs.Stmt

/-!
# Trees of expressions and statements

What holds of an expression whenever it holds of its operands holds of all expressions, and the
nodes of an expression are the expression itself and the nodes of its operands.  What holds of a
statement whenever it holds of the statements directly below it holds of all statements.

`Stmt.Holds E D` says of a statement that `E` holds of all its expressions and `D` of all its
declarations.
-/

namespace GlslEs

namespace Expr

theorem sizeOf_lt_of_mem_children {e c : Expr} (h : c ∈ e.children) : sizeOf c < sizeOf e := by
  cases e with
  | lit note value | var note name => cases h
  | call note callee args =>
    have := List.sizeOf_lt_of_mem (show c ∈ args from h)
    simp only [call.sizeOf_spec]
    omega
  | seq note exprs =>
    have := List.sizeOf_lt_of_mem (show c ∈ exprs from h)
    simp only [seq.sizeOf_spec]
    omega
  | _ =>
    simp only [children, List.mem_cons, List.not_mem_nil, or_false] at h
    rcases h with rfl | rfl | rfl <;> simp <;> omega

/-- What holds of an expression whenever it holds of its operands holds of all expressions. -/
theorem forall_of_children {P : Expr → Prop} (h : ∀ e : Expr, (∀ c ∈ e.children, P c) → P e)
    (e : Expr) : P e :=
  h e fun c hc => have := sizeOf_lt_of_mem_children hc; forall_of_children h c
termination_by sizeOf e

/-- Induction with a case for each kind of expression. -/
@[induction_eliminator]
theorem induct {P : Expr → Prop} (lit : ∀ note value, P (.lit note value))
    (var : ∀ note name, P (.var note name)) (unary : ∀ note op a, P a → P (.unary note op a))
    (binary : ∀ note op a b, P a → P b → P (.binary note op a b))
    (assign : ∀ note op a b, P a → P b → P (.assign note op a b))
    (ternary : ∀ note a b c, P a → P b → P c → P (.ternary note a b c))
    (call : ∀ note callee args, (∀ a ∈ args, P a) → P (.call note callee args))
    (swizzle : ∀ note a set components, P a → P (.swizzle note a set components))
    (field : ∀ note a name, P a → P (.field note a name))
    (index : ∀ note a b, P a → P b → P (.index note a b))
    (seq : ∀ note exprs, (∀ a ∈ exprs, P a) → P (.seq note exprs)) (e : Expr) : P e := by
  induction e using forall_of_children with
  | h e ih => cases e <;> simp_all [children]

theorem nodesAll_eq_flatMap (es : List Expr) : nodesAll es = es.flatMap nodes := by
  induction es with
  | nil => rfl
  | cons e es ih => rw [nodesAll, ih, List.flatMap_cons]

theorem nodes_eq_cons (e : Expr) : e.nodes = e :: e.children.flatMap nodes := by
  cases e with
  | call note callee args | seq note exprs => rw [nodes, nodesAll_eq_flatMap, children]
  | _ => simp [nodes, children]

theorem mem_nodes_self (e : Expr) : e ∈ e.nodes := by
  rw [nodes_eq_cons]
  exact List.mem_cons_self

/-- A property holds of all nodes of an expression if it holds of the expression and of all nodes
of its operands. -/
theorem forall_mem_nodes {P : Expr → Prop} {e : Expr} :
    (∀ x ∈ e.nodes, P x) ↔ P e ∧ ∀ c ∈ e.children, ∀ x ∈ c.nodes, P x := by
  rw [nodes_eq_cons]
  simp only [List.mem_cons, List.mem_flatMap, forall_eq_or_imp]
  constructor
  · rintro ⟨h, hs⟩
    exact ⟨h, fun c hc x hx => hs x ⟨c, hc, hx⟩⟩
  · rintro ⟨h, hs⟩
    exact ⟨h, fun x ⟨c, hc, hx⟩ => hs c hc x hx⟩

/-- What passes from expressions to their operands holds of all nodes. -/
theorem forall_nodes_of {P : Expr → Prop} (hstep : ∀ e, P e → ∀ c ∈ e.children, P c) {e : Expr}
    (h : P e) : ∀ x ∈ e.nodes, P x := by
  induction e using forall_of_children with
  | h e ih => exact forall_mem_nodes.mpr ⟨h, fun c hc => ih c hc (hstep e h c hc)⟩

end Expr

namespace Stmt

/-- The statements directly below a statement. -/
def children : Stmt → List Stmt
  | .block _ body | .switch _ _ _ body => body
  | .ifThen _ _ thenBranch => [thenBranch]
  | .ifElse _ _ thenBranch elseBranch => [thenBranch, elseBranch]
  | .forLoop _ _ _ _ body | .whileLoop _ _ body | .doWhile _ body _ => [body]
  | .expr .. | .decl .. | .label .. | .result .. | .jump .. | .empty _ => []

theorem sizeOf_lt_of_mem_children {s c : Stmt} (h : c ∈ s.children) : sizeOf c < sizeOf s := by
  cases s with
  | block loc body =>
    have := List.sizeOf_lt_of_mem (show c ∈ body from h)
    simp only [block.sizeOf_spec]
    omega
  | switch loc selector bodyLoc body =>
    have := List.sizeOf_lt_of_mem (show c ∈ body from h)
    simp only [switch.sizeOf_spec]
    omega
  | _ =>
    simp only [children, List.mem_cons, List.not_mem_nil, or_false] at h <;>
      rcases h with rfl | rfl <;> simp <;> omega

/-- What holds of a statement whenever it holds of those directly below it holds of all
statements. -/
theorem forall_of_children {P : Stmt → Prop} (h : ∀ s : Stmt, (∀ c ∈ s.children, P c) → P s)
    (s : Stmt) : P s :=
  h s fun c hc => have := sizeOf_lt_of_mem_children hc; forall_of_children h c
termination_by sizeOf s

/-- Induction with a case for each kind of statement. -/
@[induction_eliminator]
theorem induct {P : Stmt → Prop} (expr : ∀ loc e, P (.expr loc e)) (decl : ∀ loc d, P (.decl loc d))
    (block : ∀ loc body, (∀ s ∈ body, P s) → P (.block loc body))
    (ifThen : ∀ loc condition s, P s → P (.ifThen loc condition s))
    (ifElse : ∀ loc condition s t, P s → P t → P (.ifElse loc condition s t))
    (forLoop : ∀ loc start condition step body, P body → P (.forLoop loc start condition step body))
    (whileLoop : ∀ loc condition body, P body → P (.whileLoop loc condition body))
    (doWhile : ∀ loc body condition, P body → P (.doWhile loc body condition))
    (switch : ∀ loc selector bodyLoc body, (∀ s ∈ body, P s) → P (.switch loc selector bodyLoc body))
    (label : ∀ loc value, P (.label loc value)) (result : ∀ loc value, P (.result loc value))
    (jump : ∀ loc kind, P (.jump loc kind)) (empty : ∀ loc, P (.empty loc)) (s : Stmt) : P s := by
  induction s using forall_of_children with
  | h s ih => cases s <;> simp_all [children]

theorem exprsAll_eq_flatMap (ss : List Stmt) : exprsAll ss = ss.flatMap exprs := by
  induction ss with
  | nil => rfl
  | cons s ss ih => rw [exprsAll, ih, List.flatMap_cons]

theorem mem_exprsAll {ss : List Stmt} {e : Expr} : e ∈ exprsAll ss ↔ ∃ s ∈ ss, e ∈ s.exprs := by
  rw [exprsAll_eq_flatMap, List.mem_flatMap]

end Stmt

/-! ### What holds of all parts -/

/-- `E` holds of the expression in the first part of a loop head, or `D` of the declaration. -/
inductive LoopStart.Holds (E : Expr → Prop) (D : Declaration → Prop) : LoopStart → Prop
  | absent : Holds E D .absent
  | empty {loc : Location} : Holds E D (.empty loc)
  | expr {loc : Location} {e : Expr} (he : E e) : Holds E D (.expr loc e)
  | decl {loc : Location} {d : Declaration} (hd : D d) : Holds E D (.decl loc d)

/-- `E` holds of all expressions of a statement that stand in no declaration, and `D` of all its
declarations. -/
inductive Stmt.Holds (E : Expr → Prop) (D : Declaration → Prop) : Stmt → Prop
  | expr {loc : Location} {e : Expr} (he : E e) : Holds E D (.expr loc e)
  | decl {loc : Location} {d : Declaration} (hd : D d) : Holds E D (.decl loc d)
  | block {loc : Location} {body : List Stmt} (hbody : ∀ s ∈ body, Holds E D s) :
    Holds E D (.block loc body)
  | ifThen {loc : Location} {condition : Expr} {thenBranch : Stmt} (hcondition : E condition)
    (hthen : Holds E D thenBranch) : Holds E D (.ifThen loc condition thenBranch)
  | ifElse {loc : Location} {condition : Expr} {thenBranch elseBranch : Stmt} (hcondition : E condition)
    (hthen : Holds E D thenBranch) (helse : Holds E D elseBranch) :
    Holds E D (.ifElse loc condition thenBranch elseBranch)
  | forLoop {loc : Location} {start : LoopStart} {condition step : Option Expr} {body : Stmt}
    (hstart : start.Holds E D) (hcondition : ∀ e ∈ condition, E e) (hstep : ∀ e ∈ step, E e)
    (hbody : Holds E D body) : Holds E D (.forLoop loc start condition step body)
  | whileLoop {loc : Location} {condition : Expr} {body : Stmt} (hcondition : E condition)
    (hbody : Holds E D body) : Holds E D (.whileLoop loc condition body)
  | doWhile {loc : Location} {condition : Expr} {body : Stmt} (hbody : Holds E D body)
    (hcondition : E condition) : Holds E D (.doWhile loc body condition)
  | switch {loc bodyLoc : Location} {selector : Expr} {body : List Stmt} (hselector : E selector)
    (hbody : ∀ s ∈ body, Holds E D s) : Holds E D (.switch loc selector bodyLoc body)
  | label {loc : Location} {value : Option Expr} (hvalue : ∀ e ∈ value, E e) : Holds E D (.label loc value)
  | result {loc : Location} {value : Option Expr} (hvalue : ∀ e ∈ value, E e) : Holds E D (.result loc value)
  | jump {loc : Location} {kind : Jump} : Holds E D (.jump loc kind)
  | empty {loc : Location} : Holds E D (.empty loc)

section

variable {E E' : Expr → Prop} {D D' : Declaration → Prop}

theorem LoopStart.Holds.mono {start : LoopStart} (h : start.Holds E D) (hE : ∀ e, E e → E' e)
    (hD : ∀ d, D d → D' d) : start.Holds E' D' := by
  cases h with
  | absent => exact .absent
  | empty => exact .empty
  | expr he => exact .expr (hE _ he)
  | decl hd => exact .decl (hD _ hd)

theorem Stmt.Holds.mono {s : Stmt} (h : s.Holds E D) (hE : ∀ e, E e → E' e) (hD : ∀ d, D d → D' d) :
    s.Holds E' D' := by
  induction h with
  | expr he => exact .expr (hE _ he)
  | decl hd => exact .decl (hD _ hd)
  | block _ ih => exact .block ih
  | ifThen hc _ ih => exact .ifThen (hE _ hc) ih
  | ifElse hc _ _ iht ihe => exact .ifElse (hE _ hc) iht ihe
  | forLoop hstart hc hs _ ih =>
    exact .forLoop (hstart.mono hE hD) (fun e he => hE e (hc e he)) (fun e he => hE e (hs e he)) ih
  | whileLoop hc _ ih => exact .whileLoop (hE _ hc) ih
  | doWhile _ hc ih => exact .doWhile ih (hE _ hc)
  | switch hs _ ih => exact .switch (hE _ hs) ih
  | label hv => exact .label fun e he => hE e (hv e he)
  | result hv => exact .result fun e he => hE e (hv e he)
  | jump => exact .jump
  | empty => exact .empty

/-- Where `D` says that `E` holds of the values of a declaration, it holds of all expressions. -/
theorem Stmt.Holds.forall_exprs {s : Stmt} (h : s.Holds E D) (hD : ∀ d, D d → ∀ e ∈ d.values, E e) :
    ∀ e ∈ s.exprs, E e := by
  have list {ss : List Stmt} (hss : ∀ s ∈ ss, ∀ e ∈ s.exprs, E e) : ∀ e ∈ exprsAll ss, E e := fun e he => by
    obtain ⟨s, hs, he⟩ := mem_exprsAll.mp he
    exact hss s hs e he
  have start {start : LoopStart} (hstart : start.Holds E D) : ∀ e ∈ start.exprs, E e := by
    cases hstart with
    | absent | empty => simp [LoopStart.exprs]
    | expr he => simpa [LoopStart.exprs]
    | decl hd => exact hD _ hd
  induction h with
  | decl hd => exact hD _ hd
  | block _ ih => exact list ih
  | switch hs _ ih => exact List.forall_mem_cons.mpr ⟨hs, list ih⟩
  | forLoop hstart hc hs _ ih =>
    simpa [exprs, or_imp, forall_and] using ⟨start hstart, hc, hs, ih⟩
  | _ => simp_all [exprs, or_imp]

end

end GlslEs
