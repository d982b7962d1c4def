import GlslEs.Expr.Parser
import GlslEs.Proofs.Reading.Spelled
import GlslEs.Proofs.Reading.Yields

/-!
# Reading expressions yields spelt expressions

Every reader of expressions gives an expression with names of tokens, and it neither learns nor
forgets a structure.

`ExprReaders` holds what all readers with the same fuel promise; `exprReaders` is the induction
on the fuel.
-/

namespace GlslEs

namespace Parse

variable {S : List String}

theorem keeps_constructorType (word : Ty) : Keeps S (constructorType word) fun ty => ty.base = word.base := by
  refine keeps_accept.bind fun _ _ => ?_
  split
  · refine keeps_accept.bind fun _ _ => ?_
    split
    · exact .pure ⟨rfl, rfl⟩
    · refine keeps_advance.bind fun l _ => ?_
      dsimp only
      split
      · exact keeps_expect.bind fun _ _ => .pure ⟨rfl, rfl⟩
      · exact keeps_expect.bind fun _ _ => .pure ⟨rfl, rfl⟩
      · exact yields_failPassed_bind _
  · exact .pure ⟨rfl, rfl⟩

/-- All readers of expressions with the same fuel give spelt expressions and keep the
structures. -/
structure ExprReaders (S : List String) (fuel : Nat) : Prop where
  expression : Keeps S (expression fuel) Expr.Spelt
  commaTail : Keeps S (commaTail fuel) fun es => ∀ e ∈ es, e.Spelt
  assignment : Keeps S (assignment fuel) Expr.Spelt
  conditional : Keeps S (conditional fuel) Expr.Spelt
  binary (min : Nat) : Keeps S (binary fuel min) Expr.Spelt
  binaryTail {left : Expr} (min : Nat) : left.Spelt → Keeps S (binaryTail fuel min left) Expr.Spelt
  unary : Keeps S (unary fuel) Expr.Spelt
  selection : Keeps S (selection fuel) Expr.Spelt
  selectionTail {e : Expr} : e.Spelt → Keeps S (selectionTail fuel e) Expr.Spelt
  primary : Keeps S (primary fuel) Expr.Spelt
  arguments : Keeps S (arguments fuel) fun es => ∀ e ∈ es, e.Spelt

theorem ExprReaders.zero : ExprReaders S 0 where
  expression := yields_fail _
  commaTail := yields_fail _
  assignment := yields_fail _
  conditional := yields_fail _
  binary _ := yields_fail _
  binaryTail _ _ := yields_fail _
  unary := yields_fail _
  selection := yields_fail _
  selectionTail _ := yields_fail _
  primary := yields_fail _
  arguments := yields_fail _

namespace ExprReaders

variable {fuel : Nat} (r : ExprReaders S fuel)

include r

theorem expression_succ : Keeps S (Parse.expression (fuel + 1)) Expr.Spelt := by
  rw [Parse.expression]
  refine r.assignment.bind fun first hfirst => keeps_check.bind fun _ _ => ?_
  split
  · refine r.commaTail.bind fun rest hrest => .pure ⟨Expr.spelt_iff.mpr ⟨by simp [Expr.NodeSpelt], ?_⟩, rfl⟩
    simpa [Expr.children, hfirst] using hrest
  · exact .pure ⟨hfirst, rfl⟩

theorem commaTail_succ : Keeps S (Parse.commaTail (fuel + 1)) fun es => ∀ e ∈ es, e.Spelt := by
  rw [Parse.commaTail]
  refine keeps_accept.bind fun _ _ => ?_
  split
  · exact r.assignment.bind fun e he => r.commaTail.bind fun es hes =>
      .pure ⟨by simpa [he] using hes, rfl⟩
  · exact .pure ⟨by simp, rfl⟩

theorem assignment_succ : Keeps S (Parse.assignment (fuel + 1)) Expr.Spelt := by
  rw [Parse.assignment]
  refine r.conditional.bind fun target htarget => keeps_token.bind fun _ _ => ?_
  split
  · split
    · exact keeps_advance.bind fun _ _ => r.assignment.bind fun value hvalue =>
        .pure ⟨Expr.spelt_iff.mpr ⟨trivial, by simp [Expr.children, htarget, hvalue]⟩, rfl⟩
    · exact .pure ⟨htarget, rfl⟩
  · exact .pure ⟨htarget, rfl⟩

theorem conditional_succ : Keeps S (Parse.conditional (fuel + 1)) Expr.Spelt := by
  rw [Parse.conditional]
  refine (r.binary 0).bind fun condition hcondition => keeps_accept.bind fun _ _ => ?_
  split
  · exact r.expression.bind fun ifTrue htrue => keeps_expect.bind fun _ _ =>
      r.assignment.bind fun ifFalse hfalse =>
        .pure ⟨Expr.spelt_iff.mpr ⟨trivial, by simp [Expr.children, hcondition, htrue, hfalse]⟩, rfl⟩
  · exact .pure ⟨hcondition, rfl⟩

theorem binary_succ (min : Nat) : Keeps S (Parse.binary (fuel + 1) min) Expr.Spelt := by
  rw [Parse.binary]
  exact r.unary.bind fun left hleft => r.binaryTail min hleft

theorem binaryTail_succ {left : Expr} (min : Nat) (hleft : left.Spelt) :
    Keeps S (Parse.binaryTail (fuel + 1) min left) Expr.Spelt := by
  rw [Parse.binaryTail]
  refine keeps_token.bind fun _ _ => ?_
  split
  · split
    · split
      · exact .pure ⟨hleft, rfl⟩
      · exact keeps_advance.bind fun _ _ => (r.binary _).bind fun right hright =>
          r.binaryTail min (Expr.spelt_iff.mpr ⟨trivial, by simp [Expr.children, hleft, hright]⟩)
    · exact .pure ⟨hleft, rfl⟩
  · exact .pure ⟨hleft, rfl⟩

theorem unary_succ : Keeps S (Parse.unary (fuel + 1)) Expr.Spelt := by
  rw [Parse.unary]
  refine keeps_token.bind fun _ _ => ?_
  split
  · split
    · exact keeps_advance.bind fun _ _ => r.unary.bind fun operand hoperand =>
        .pure ⟨Expr.spelt_iff.mpr ⟨trivial, by simp [Expr.children, hoperand]⟩, rfl⟩
    · exact r.selection
  · exact r.selection

theorem selection_succ : Keeps S (Parse.selection (fuel + 1)) Expr.Spelt := by
  rw [Parse.selection]
  exact r.primary.bind fun e he => r.selectionTail he

theorem selectionTail_succ {e : Expr} (he : e.Spelt) :
    Keeps S (Parse.selectionTail (fuel + 1) e) Expr.Spelt := by
  -- An operator behind the operand takes one token and makes a node above it.
  have trailing (op : UnaryOp) : Keeps S (do
      let _ ← advance
      Parse.selectionTail fuel (.unary (.unresolved e.loc) op e)) Expr.Spelt :=
    keeps_advance.bind fun _ _ =>
      r.selectionTail (Expr.spelt_iff.mpr ⟨trivial, by simp [Expr.children, he]⟩)
  rw [Parse.selectionTail]
  refine keeps_token.bind fun _ _ => ?_
  split
  · exact keeps_advance.bind fun _ _ => r.expression.bind fun position hposition =>
      keeps_expect.bind fun _ _ =>
        r.selectionTail (Expr.spelt_iff.mpr ⟨trivial, by simp [Expr.children, he, hposition]⟩)
  · refine keeps_advance.bind fun _ _ => keeps_name.bind fun field hfield =>
      keeps_check.bind fun _ _ => ?_
    split
    · exact yields_fail_bind _
    · exact r.selectionTail (Expr.spelt_iff.mpr ⟨hfield, by simp [Expr.children, he]⟩)
  · exact trailing _
  · exact trailing _
  · exact .pure ⟨he, rfl⟩

theorem primary_succ : Keeps S (Parse.primary (fuel + 1)) Expr.Spelt := by
  have construct (loc : Location) {word : Ty} (hword : word.Named S) : Keeps S (do
      let ty ← constructorType word
      let args ← Parse.arguments fuel
      return Expr.call (.unresolved loc) (.constructor ty) args) Expr.Spelt :=
    (keeps_constructorType word).bind fun ty hty => r.arguments.bind fun args hargs =>
      .pure ⟨Expr.spelt_iff.mpr ⟨⟨S, word, hword, hty⟩, hargs⟩, rfl⟩
  have leaf (e : Expr) (hchildren : e.children = []) (he : e.NodeSpelt) :
      Keeps S (pure e) Expr.Spelt :=
    .pure ⟨Expr.spelt_iff.mpr ⟨he, by simp [hchildren]⟩, rfl⟩
  refine keeps_advance.bind fun l htoken => ?_
  obtain ⟨token, loc⟩ := l
  cases token with
  | int value | uint value | float value | bool value => exact leaf _ rfl trivial
  | punct p =>
    cases p with
    | leftParen => exact r.expression.bind fun e he => keeps_expect.bind fun _ _ => .pure ⟨he, rfl⟩
    | _ => exact yields_failPassed _
  | typeName ty => exact construct loc (.inl htoken)
  | identifier name =>
    refine keeps_isStruct.bind fun known hknown => ?_
    split
    · rename_i hstruct
      rw [hknown, List.contains_iff_mem] at hstruct
      exact construct loc (.inr ⟨name, hstruct, htoken, rfl⟩)
    · refine keeps_check.bind fun _ _ => ?_
      split
      · exact r.arguments.bind fun args hargs => .pure ⟨Expr.spelt_iff.mpr ⟨htoken, hargs⟩, rfl⟩
      · exact leaf _ rfl htoken
  | _ => exact yields_failPassed _

theorem arguments_succ : Keeps S (Parse.arguments (fuel + 1)) fun es => ∀ e ∈ es, e.Spelt := by
  have close {args : List Expr} (hargs : ∀ e ∈ args, e.Spelt) : Keeps S (do
      let _ ← expect .rightParen .argumentsClose
      return args) fun es => ∀ e ∈ es, e.Spelt :=
    keeps_expect.bind fun _ _ => .pure ⟨hargs, rfl⟩
  rw [Parse.arguments]
  refine keeps_expect.bind fun _ _ => keeps_atVoidList.bind fun _ _ => keeps_check.bind fun _ _ => ?_
  split
  · exact keeps_advance.bind fun _ _ => close (by simp)
  · split
    · exact close (by simp)
    · exact r.assignment.bind fun first hfirst => r.commaTail.bind fun rest hrest =>
        close (by simpa [hfirst] using hrest)

end ExprReaders

theorem exprReaders (fuel : Nat) : ExprReaders S fuel := by
  induction fuel with
  | zero => exact .zero
  | succ fuel r =>
    exact ⟨r.expression_succ, r.commaTail_succ, r.assignment_succ, r.conditional_succ,
      r.binary_succ, r.binaryTail_succ, r.unary_succ, r.selection_succ, r.selectionTail_succ,
      r.primary_succ, r.arguments_succ⟩

end Parse

end GlslEs
