import GlslEs.Proofs.Optimize.Step

/-!
# One pass leaves expressions normal

A pass settles every node after its operands.  A rule gives an operand, or puts operands together in a
way that at most one more rule applies to, so the settled node is settled for good: no rule applies to
it or below it, and a second pass leaves it alone.

The bound on the steps at one node is never reached because the signs `+`, `-`, `~` and `!` keep the
type of their operand.  This holds of checked expressions only: of `!!c` with types that differ no sign
is taken away, and a conditional would turn its branches around once for each of them.

* `Expr.Throughout`: a property of all nodes that a pass visits.
* `Expr.SignTyped`: a sign has the type of its operand.
* `Expr.Normal`: no rule applies.
* `Optimize.normal_expr`: **a pass over an expression leaves it normal**.
* `Optimize.expr_of_normal`: a pass over a normal expression does nothing.
-/

namespace GlslEs

namespace Expr

/-- A property of an expression and of all nodes below it that a pass visits. -/
inductive Throughout (P : Expr → Prop) : Expr → Prop
  | intro {e : Expr} (self : P e) (below : ∀ c ∈ e.visited, Throughout P c) : Throughout P e

namespace Throughout

variable {P : Expr → Prop} {e c : Expr}

theorem self (h : Throughout P e) : P e := by
  cases h with
  | intro self below => exact self

theorem of_mem (h : Throughout P e) (hc : c ∈ e.visited) : Throughout P c := by
  cases h with
  | intro self below => exact below c hc

end Throughout

end Expr

/-! ### Signs and types -/

/-- The type of an operand with a sign in front of it: an array of an unknown type gets just an unknown
type. -/
def Ty.underSign (ty : Ty) : Ty := if ty.isError then .error else ty

@[simp]
theorem Ty.underSign_underSign (ty : Ty) : ty.underSign.underSign = ty.underSign := by
  unfold underSign
  split <;> simp_all

namespace Expr

/-- A sign keeps the type of its operand, and a difference has a type that a sign could have. -/
def SignTyped : Expr → Prop
  | .unary note op operand => op.isIncrement = false → note.ty = operand.ty.underSign
  | .binary note (.arith .sub) _ _ => note.ty.underSign = note.ty
  | _ => True

theorem SignTyped.mapVisited {f : Expr → Expr} {e : Expr} (h : e.SignTyped)
    (hf : ∀ c ∈ e.visited, (f c).ty.underSign = c.ty.underSign) : (e.mapVisited f).SignTyped := by
  cases e with
  | unary note op operand =>
    intro hop
    rw [hf operand List.mem_cons_self]
    exact h hop
  | binary note op left right =>
    cases op with
    | arith op => cases op <;> exact h
    | _ => trivial
  | call note callee args => cases callee <;> trivial
  | _ => trivial

end Expr

namespace Rule

namespace Turns

variable {rules : List Rule} {e e' : Expr}

/-- Rules keep types, as far as signs can tell. -/
theorem underSign_eq (h : Turns rules e e') (he : e.SignTyped) : e'.ty.underSign = e.ty.underSign := by
  cases h with
  | plus note x =>
    have hty : note.ty = e'.ty.underSign := he rfl
    show _ = note.ty.underSign
    rw [hty, Ty.underSign_underSign]
  | twice inner hop hty => exact congrArg Ty.underSign hty
  | negated hrule note inner b hallowed | turned note inner c a b => rfl
  | left hb hty | right ha hty | minus ha hty => exact congrArg Ty.underSign hty

theorem signTyped (h : Turns rules e e') (he : e.Throughout Expr.SignTyped) :
    e'.Throughout Expr.SignTyped := by
  cases h with
  | plus note x => exact he.of_mem List.mem_cons_self
  | twice inner hop hty => exact (he.of_mem List.mem_cons_self).of_mem List.mem_cons_self
  | negated hrule note inner b hallowed =>
    exact .intro trivial fun x hx => (he.of_mem List.mem_cons_self).of_mem hx
  | turned note inner c a b =>
    refine .intro trivial fun x hx => ?_
    simp only [Expr.visited, Expr.children, List.mem_cons, List.not_mem_nil, or_false] at hx
    rcases hx with rfl | rfl | rfl
    · exact (he.of_mem List.mem_cons_self).of_mem List.mem_cons_self
    · exact he.of_mem (by simp [Expr.visited, Expr.children])
    · exact he.of_mem (by simp [Expr.visited, Expr.children])
  | left hb hty | right ha hty => exact he.of_mem (by simp [Expr.visited, Expr.children])
  | minus ha hty =>
    refine .intro (fun _ => ?_) fun x hx => he.of_mem (List.mem_cons_of_mem _ hx)
    have hnote : _ = _ := he.self
    show Expr.ty _ = _
    rw [hty, hnote]

end Turns

end Rule

/-! ### Expressions to which no rule applies -/

/-- No rule applies to the expression or below it. -/
def Expr.Normal (rules : List Rule) (e : Expr) : Prop :=
  e.Throughout fun x => Optimize.firstStep? rules x = none

/-- How many `!` stand in front of an expression. -/
def Expr.negations : Expr → Nat
  | .unary _ .not operand => operand.negations + 1
  | _ => 0

namespace Optimize

variable {rules : List Rule} {e e' : Expr} {note : Note}

theorem firstStep?_eq_none (h : ∀ e', ¬ Rule.Turns rules e e') : firstStep? rules e = none := by
  cases hstep : firstStep? rules e with
  | none => rfl
  | some step => exact absurd (turns_of_firstStep? hstep) (h step.2)

theorem value_settle_of_normal (h : e.Normal rules) (n : Nat) : (settle rules n e).value = e := by
  rw [settle_of_eq_none h.self]
  rfl

/-- In front of a normal expression with types stand at most two `!`: of three, two would have been
taken away. -/
theorem negations_le_two (hrules : .unaryIdentity ∈ rules) (htyped : e.Throughout Expr.SignTyped)
    (hnormal : e.Normal rules) : e.negations ≤ 2 := by
  unfold Expr.negations
  split
  · rename_i note c
    unfold Expr.negations
    split
    · rename_i inner d
      unfold Expr.negations
      split
      · rename_i innermost x
        have hstep := firstStep?_eq_none_iff.mp hnormal.self _ hrules
        have hc := htyped.of_mem (c := .unary inner .not _) List.mem_cons_self
        have hd := hc.of_mem (c := .unary innermost .not _) List.mem_cons_self
        have hnote : note.ty = inner.ty.underSign := htyped.self rfl
        have hinner : inner.ty = innermost.ty.underSign := hc.self rfl
        have hinnermost : innermost.ty = x.ty.underSign := hd.self rfl
        have hequal : innermost.ty = note.ty := by
          rw [hnote, hinner, hinnermost]
          simp only [Ty.underSign_underSign]
        have hty : (Expr.unary innermost .not x).ty = note.ty := hequal
        simp [Rule.expr?, Rule.unaryIdentity?, hty, UnaryOp.isIncrement] at hstep
      · omega
    · omega
  · omega

/-- One step is enough for an operation with one operand. -/
theorem normal_settle_unary {op : UnaryOp} {x : Expr} (hx : x.Normal rules) (n : Nat) :
    (settle rules (n + 1) (.unary note op x)).value.Normal rules := by
  cases hstep : firstStep? rules (.unary note op x) with
  | none =>
    rw [settle_of_eq_none hstep]
    exact .intro hstep fun c hc => List.mem_singleton.mp hc ▸ hx
  | some step =>
    obtain ⟨name, e'⟩ := step
    have hnormal : e'.Normal rules := by
      cases turns_of_firstStep? hstep with
      | plus => exact hx
      | twice inner hop hty => exact hx.of_mem List.mem_cons_self
      | negated hrule note inner b hallowed =>
        exact .intro (firstStep?_eq_none fun e' h => by cases h) fun c hc => hx.of_mem hc
    rw [settle_of_eq_some hstep, value_settle_of_normal hnormal]
    exact hnormal

/-- Two steps are enough for an operation with two operands: `0 - x` becomes `-x` first. -/
theorem normal_settle_binary {op : BinaryOp} {a b : Expr} (ha : a.Normal rules)
    (hb : b.Normal rules) (n : Nat) : (settle rules (n + 2) (.binary note op a b)).value.Normal rules := by
  cases hstep : firstStep? rules (.binary note op a b) with
  | none =>
    rw [settle_of_eq_none hstep]
    have hbelow : ∀ c ∈ [a, b], c.Normal rules := by simp [ha, hb]
    exact .intro hstep hbelow
  | some step =>
    obtain ⟨name, e'⟩ := step
    rw [settle_of_eq_some hstep]
    cases turns_of_firstStep? hstep with
    | left hneutral hty => rwa [value_settle_of_normal ha]
    | right hneutral hty => rwa [value_settle_of_normal hb]
    | minus hzero hty => exact normal_settle_unary hb n

/-- As many steps as `!` stand in front of the condition are enough for a conditional. -/
theorem normal_settle_ternary {c a b : Expr} (hc : c.Normal rules) (ha : a.Normal rules)
    (hb : b.Normal rules) {n : Nat} (hn : c.negations ≤ n) :
    (settle rules n (.ternary note c a b)).value.Normal rules := by
  induction n generalizing c a b with
  | zero =>
    have hbelow : ∀ x ∈ [c, a, b], x.Normal rules := by simp [hc, ha, hb]
    refine .intro (firstStep?_eq_none fun e' hturns => ?_) hbelow
    cases hturns with
    | turned note inner c a b => simp [Expr.negations] at hn
  | succ n ih =>
    cases hstep : firstStep? rules (.ternary note c a b) with
    | none =>
      have hbelow : ∀ x ∈ [c, a, b], x.Normal rules := by simp [hc, ha, hb]
      rw [settle_of_eq_none hstep]
      exact .intro hstep hbelow
    | some step =>
      obtain ⟨name, e'⟩ := step
      rw [settle_of_eq_some hstep]
      cases turns_of_firstStep? hstep with
      | turned note inner c a b =>
        exact ih (hc.of_mem List.mem_cons_self) hb ha (by simpa [Expr.negations] using hn)

/-- A node over normal operands is settled within the steps allowed. -/
theorem normal_top (hrules : .unaryIdentity ∈ rules) (htyped : e.Throughout Expr.SignTyped)
    (hbelow : ∀ c ∈ e.visited, c.Normal rules) : (top rules e).value.Normal rules := by
  -- No rule applies to anything but the three kinds of operations.
  have hother : (∀ e', ¬ Rule.Turns rules e e') → (top rules e).value.Normal rules := fun h => by
    have hstep : firstStep? rules e = none := firstStep?_eq_none h
    rw [top, settle_of_eq_none hstep]
    exact .intro hstep hbelow
  cases e with
  | unary note op x => exact normal_settle_unary (hbelow x List.mem_cons_self) 63
  | binary note op a b =>
    exact normal_settle_binary (hbelow a List.mem_cons_self)
      (hbelow b (by simp [Expr.visited, Expr.children])) 62
  | ternary note c a b =>
    have hc := hbelow c List.mem_cons_self
    refine normal_settle_ternary hc (hbelow a (by simp [Expr.visited, Expr.children]))
      (hbelow b (by simp [Expr.visited, Expr.children])) ?_
    have := negations_le_two hrules (htyped.of_mem List.mem_cons_self) hc
    unfold stepsPerNode
    omega
  | _ => exact hother fun e' h => by cases h

/-- Rules and other operands of the same types keep the types of signs. -/
theorem preserves_signTyped (rules : List Rule) : Preserves rules (Expr.Throughout Expr.SignTyped)
    fun e e' => e'.ty.underSign = e.ty.underSign where
  refl _ := rfl
  trans h h' := h'.trans h
  turns h hturns := ⟨hturns.signTyped h, hturns.underSign_eq h.self⟩
  child h hc := h.of_mem hc
  visited {e f} h hf := by
    refine ⟨.intro (h.self.mapVisited fun c hc => (hf c hc).2) fun x hx => ?_, congrArg _ (e.ty_mapVisited f)⟩
    rw [Expr.visited_mapVisited] at hx
    obtain ⟨c, hc, rfl⟩ := List.mem_map.mp hx
    exact (hf c hc).1

/-- **A pass over an expression leaves it normal.** -/
theorem normal_expr (hrules : .unaryIdentity ∈ rules) (h : e.Throughout Expr.SignTyped) :
    (expr rules e).value.Normal rules := by
  induction e using Expr.forall_of_children with
  | h e ih =>
    rw [value_expr]
    refine normal_top hrules
      ((preserves_signTyped rules).visited h fun c hc => (preserves_signTyped rules).expr (h.of_mem hc)).1
      fun x hx => ?_
    rw [Expr.visited_mapVisited] at hx
    obtain ⟨c, hc, rfl⟩ := List.mem_map.mp hx
    exact ih c (e.visited_subset_children hc) (h.of_mem hc)

/-- A pass over a normal expression does nothing. -/
theorem expr_of_normal (h : e.Normal rules) : expr rules e = .quiet e := by
  induction h with
  | @intro e self below ih =>
    have hmap : e.mapVisited (fun c => (expr rules c).value) = e :=
      Expr.mapVisited_eq_self fun c hc => by rw [ih c hc]; rfl
    have htop : top rules e = .quiet e := settle_of_eq_none self _
    refine Logged.eq_quiet ?_ ?_
    · rw [value_expr, hmap, htop]
      rfl
    · rw [log_expr, hmap, htop, Logged.log_quiet, List.append_nil, List.flatMap_eq_nil_iff]
      intro c hc
      rw [ih c hc]
      rfl

end Optimize

end GlslEs
