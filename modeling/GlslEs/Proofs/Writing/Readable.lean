import GlslEs.Expr.Writer
import GlslEs.Proofs.Writing.Bare
import GlslEs.Proofs.Writing.Reads

/-!
# Rows of tokens that are read as an expression

An operand is read up to the first token that cannot go on with it.  `Token.reach` says how tightly a
token binds to the operand in front of it, and `Expr.Readable S ts e n` says that the tokens `ts` are read
as `e` wherever an operand of level `n` is looked for and the token behind them does not reach it.

Operators that group to the left are read in a loop.  What is said of them is therefore said together
with the rest of the loop: whatever the loop makes of the operand, the reader makes of the tokens.

* `Expr.Readable`: the readers of all levels.
* `Expr.ReadsTrailing.readable`, `Expr.ReadsUnary.readable`, `Expr.ReadsBinary.readable`, ...: **what is read
  as an operand of one level is read as one of every level below**.
-/

namespace GlslEs

/-! ### How far a token reaches -/

namespace Token

/-- The operator in front of an operand that a token stands for. -/
def leading? : Token → Option UnaryOp
  | .punct sign => UnaryOp.leading? sign
  | _ => none

/-- How tightly a token binds to the operand in front of it; an operand whose level is at least that is
complete in front of the token. -/
def reach : Token → Nat
  | .punct .leftParen => Level.trailing + 2
  | .punct .leftBracket | .punct .dot | .punct .plusPlus | .punct .minusMinus => Level.trailing + 1
  | .punct .question => Level.ternary + 1
  | .punct .comma => Level.assign
  | .punct sign =>
    match BinaryOp.ofSign? sign with
    | some op => op.precedence + 1
    | none => if (AssignOp.ofSign? sign).isSome then Level.ternary + 1 else 0
  | _ => 0

theorem reach_binary (op : BinaryOp) : reach (.punct op.sign) = op.precedence + 1 := by
  rcases op with op | op | op <;> cases op <;> rfl

theorem reach_assign (op : AssignOp) : reach (.punct op.sign) = Level.ternary + 1 := by
  rcases op with _ | op
  · rfl
  · cases op <;> rfl

end Token

theorem BinaryOp.ofSign?_sign (op : BinaryOp) : ofSign? op.sign = some op := by
  rcases op with op | op | op <;> cases op <;> rfl

theorem BinaryOp.sign_of_ofSign? {sign : Punct} {op : BinaryOp} (h : ofSign? sign = some op) :
    op.sign = sign := by
  simpa using List.find?_some h

theorem BinaryOp.three_le_precedence (op : BinaryOp) : 3 ≤ op.precedence := by
  rcases op with op | op | op <;> cases op <;> decide

theorem BinaryOp.precedence_le (op : BinaryOp) : op.precedence ≤ 13 := by
  rcases op with op | op | op <;> cases op <;> decide

theorem AssignOp.ofSign?_sign (op : AssignOp) : ofSign? op.sign = some op := by
  rcases op with _ | op
  · rfl
  · cases op <;> rfl

theorem AssignOp.sign_of_ofSign? {sign : Punct} {op : AssignOp} (h : ofSign? sign = some op) :
    op.sign = sign := by
  simpa using List.find?_some h

namespace Expr

variable {t : Token} {rest : List Token} {level : Nat}

open Parse

variable {S : List String} {ts : List Token} {e : Expr}

/-! ### Complete operands -/

theorem reads_selectionTail {f : Nat} (hf : 0 < f) (ht : t.reach ≤ Level.trailing) (e : Expr) :
    Reads (selectionTail f e) ⟨t :: rest, S⟩ ⟨t :: rest, S⟩ fun e' => e' = e := by
  obtain ⟨f, rfl⟩ := Nat.exists_eq_add_one.mpr hf
  rw [selectionTail]
  refine reads_token_bind ?_
  split
  · exact absurd ht (by decide)
  · exact absurd ht (by decide)
  · exact absurd ht (by decide)
  · exact absurd ht (by decide)
  · exact .pure rfl

theorem reads_binaryTail {f min : Nat} (hf : 0 < f)
    (ht : ∀ op : BinaryOp, t = .punct op.sign → op.precedence < min) (e : Expr) :
    Reads (binaryTail f min e) ⟨t :: rest, S⟩ ⟨t :: rest, S⟩ fun e' => e' = e := by
  obtain ⟨f, rfl⟩ := Nat.exists_eq_add_one.mpr hf
  rw [binaryTail]
  refine reads_token_bind ?_
  split
  · split
    · rename_i op hop
      rw [if_pos (ht op (by rw [BinaryOp.sign_of_ofSign? hop]))]
      exact .pure rfl
    · exact .pure rfl
  · exact .pure rfl

/-! ### Operands of a level -/

variable (S ts e)

/-- The tokens are read as an operand that selections may follow. -/
structure ReadsTrailing : Prop where
  opens : ∃ t rest, ts = t :: rest ∧ t.leading? = none
  reads : ∀ {f F : Nat} {t : Token} {rest : List Token} {w : View} {Q : Expr → Prop},
    f + 8 * ts.length ≤ F + 4 → t.reach ≤ Level.trailing + 1 →
    (∀ e' f', f ≤ f' → e'.bare = e.bare → Reads (selectionTail f' e') ⟨t :: rest, S⟩ w Q) →
    Reads (selection F) ⟨ts ++ t :: rest, S⟩ w Q

/-- The tokens are read as an operand of an operator in front. -/
structure ReadsUnary : Prop where
  nonempty : 0 < ts.length
  reads : ∀ {F : Nat} {t : Token} {rest : List Token}, 8 * ts.length ≤ F + 2 →
    t.reach ≤ Level.trailing →
    Reads (Parse.unary F) ⟨ts ++ t :: rest, S⟩ ⟨t :: rest, S⟩ fun e' => e'.bare = e.bare

/-- The tokens are read as an operand that operators of a level may follow. -/
structure ReadsBinary (level : Nat) : Prop where
  nonempty : 0 < ts.length
  reads : ∀ {f F min : Nat} {t : Token} {rest : List Token} {w : View} {Q : Expr → Prop},
    f + 8 * ts.length ≤ F + 1 → min ≤ level → t.reach ≤ level + 1 →
    (∀ e' f', f ≤ f' → e'.bare = e.bare → Reads (binaryTail f' min e') ⟨t :: rest, S⟩ w Q) →
    Reads (Parse.binary F min) ⟨ts ++ t :: rest, S⟩ w Q

/-- The tokens are read as a choice between values, or as what binds tighter. -/
structure ReadsConditional : Prop where
  reads : ∀ {F : Nat} {t : Token} {rest : List Token}, 8 * ts.length + 1 ≤ F → t.reach ≤ Level.ternary →
    Reads (conditional F) ⟨ts ++ t :: rest, S⟩ ⟨t :: rest, S⟩ fun e' => e'.bare = e.bare

/-- The tokens are read as an assignment, or as what binds tighter. -/
structure ReadsAssignment : Prop where
  reads : ∀ {F : Nat} {t : Token} {rest : List Token}, 8 * ts.length + 2 ≤ F → t.reach ≤ Level.ternary →
    Reads (assignment F) ⟨ts ++ t :: rest, S⟩ ⟨t :: rest, S⟩ fun e' => e'.bare = e.bare

/-- The tokens are read as an expression. -/
structure ReadsExpression : Prop where
  reads : ∀ {F : Nat} {t : Token} {rest : List Token}, 8 * ts.length + 3 ≤ F → t.reach = 0 →
    Reads (expression F) ⟨ts ++ t :: rest, S⟩ ⟨t :: rest, S⟩ fun e' => e'.bare = e.bare

/-- The tokens are read as the expression wherever an operand of at most the given level is looked for. -/
structure Readable (level : Nat) : Prop where
  trailing : Level.trailing ≤ level → ReadsTrailing S ts e
  unary : Level.unary ≤ level → ReadsUnary S ts e
  binary : ∀ n ≤ level, Level.ternary < n → n ≤ Level.unary → ReadsBinary S ts e n
  conditional : Level.ternary ≤ level → ReadsConditional S ts e
  assignment : Level.assign ≤ level → ReadsAssignment S ts e
  expression : ReadsExpression S ts e

variable {S ts e}

/-! ### From one level to the next -/

theorem ReadsTrailing.readsUnary (h : ReadsTrailing S ts e) : ReadsUnary S ts e := by
  obtain ⟨t, ts', rfl, hleading⟩ := h.opens
  refine ⟨by simp, fun {F u rest} hF hu => ?_⟩
  obtain ⟨F, rfl⟩ : ∃ G, F = G + 1 := ⟨F - 1, by simp only [List.length_cons] at hF; omega⟩
  have hselection : Reads (selection F) ⟨t :: ts' ++ u :: rest, S⟩ ⟨u :: rest, S⟩
      fun e' => e'.bare = e.bare := by
    refine h.reads (f := 1) (by omega) (Nat.le_succ_of_le hu) fun e' f' hf' he' => ?_
    exact (reads_selectionTail hf' hu e').mono fun e'' he'' => he'' ▸ he'
  rw [Parse.unary]
  refine reads_token_bind ?_
  split
  · rename_i sign
    have hnone : UnaryOp.leading? sign = none := hleading
    rw [hnone]
    exact hselection
  · exact hselection

theorem ReadsUnary.readsBinary (h : ReadsUnary S ts e) (hlevel : level ≤ Level.unary) :
    ReadsBinary S ts e level := by
  refine ⟨h.nonempty, fun {f F min t rest w Q} hF _ ht htail => ?_⟩
  have hpos := h.nonempty
  obtain ⟨F, rfl⟩ : ∃ G, F = G + 1 := ⟨F - 1, by omega⟩
  rw [Parse.binary]
  refine (h.reads (by omega) ?_).bind fun e' he' => htail e' F (by omega) he'
  exact Nat.le_trans ht (by simp only [Level.unary, Level.trailing] at hlevel ⊢; omega)

theorem ReadsBinary.mono {m n : Nat} (h : ReadsBinary S ts e n) (hm : m ≤ n) : ReadsBinary S ts e m :=
  ⟨h.nonempty, fun hF hmin ht => h.reads hF (Nat.le_trans hmin hm) (by omega)⟩

/-- An operand in front of a token that does not reach it. -/
theorem ReadsBinary.reads_complete {n min F : Nat} (h : ReadsBinary S ts e n) (hF : 8 * ts.length ≤ F)
    (hmin : min ≤ n) (ht : t.reach ≤ n + 1)
    (hop : ∀ op : BinaryOp, t = .punct op.sign → op.precedence < min) :
    Reads (Parse.binary F min) ⟨ts ++ t :: rest, S⟩ ⟨t :: rest, S⟩ fun e' => e'.bare = e.bare := by
  refine h.reads (f := 1) (by omega) hmin ht fun e' f' hf' he' => ?_
  exact (reads_binaryTail hf' hop e').mono fun e'' he'' => he'' ▸ he'

/-- An operand that is not the condition of a choice. -/
theorem ReadsBinary.reads_conditional {n F : Nat} (h : ReadsBinary S ts e n) (hn : Level.ternary < n)
    (hF : 8 * ts.length + 1 ≤ F) (ht : t.reach ≤ Level.ternary + 1) (hquestion : t ≠ .punct .question) :
    Reads (Parse.conditional F) ⟨ts ++ t :: rest, S⟩ ⟨t :: rest, S⟩ fun e' => e'.bare = e.bare := by
  obtain ⟨F, rfl⟩ : ∃ G, F = G + 1 := ⟨F - 1, by omega⟩
  rw [Parse.conditional]
  refine (h.reads_complete (by omega) (Nat.zero_le n) (by omega) ?_).bind fun e' he' => ?_
  · rintro op rfl
    have hprecedence := op.three_le_precedence
    rw [Token.reach_binary] at ht
    simp only [Level.ternary] at ht
    omega
  · refine (reads_accept_of_ne hquestion).bind ?_
    rintro _ rfl
    exact .pure he'

theorem ReadsBinary.readsConditional {n : Nat} (h : ReadsBinary S ts e n) (hn : Level.ternary < n) :
    ReadsConditional S ts e := by
  refine ⟨fun {F t rest} hF ht => ?_⟩
  refine h.reads_conditional hn hF (Nat.le_succ_of_le ht) ?_
  rintro rfl
  exact absurd ht (by decide)

theorem ReadsConditional.readsAssignment (h : ReadsConditional S ts e) : ReadsAssignment S ts e := by
  refine ⟨fun {F t rest} hF ht => ?_⟩
  obtain ⟨F, rfl⟩ : ∃ G, F = G + 1 := ⟨F - 1, by omega⟩
  rw [Parse.assignment]
  refine (h.reads (by omega) ht).bind fun e' he' => ?_
  refine reads_token_bind ?_
  split
  · split
    · rename_i op hop
      rw [← AssignOp.sign_of_ofSign? hop, Token.reach_assign] at ht
      exact absurd ht (by decide)
    · exact .pure he'
  · exact .pure he'

theorem ReadsAssignment.readsExpression (h : ReadsAssignment S ts e) : ReadsExpression S ts e := by
  refine ⟨fun {F t rest} hF ht => ?_⟩
  obtain ⟨F, rfl⟩ : ∃ G, F = G + 1 := ⟨F - 1, by omega⟩
  rw [Parse.expression]
  refine (h.reads (by omega) (by omega)).bind fun e' he' => ?_
  refine reads_check_bind ?_
  have hcomma : (t == .punct .comma) = false := by
    rw [beq_eq_false_iff_ne]
    rintro rfl
    exact absurd ht (by decide)
  rw [hcomma]
  exact .pure he'

/-! ### All levels below one -/

theorem ReadsExpression.readable (h : ReadsExpression S ts e) : Readable S ts e Level.sequence where
  trailing hn := absurd hn (by decide)
  unary hn := absurd hn (by decide)
  binary n hn hlow := absurd (Nat.lt_of_lt_of_le hlow hn) (by decide)
  conditional hn := absurd hn (by decide)
  assignment hn := absurd hn (by decide)
  expression := h

theorem ReadsAssignment.readable (h : ReadsAssignment S ts e) : Readable S ts e Level.assign where
  trailing hn := absurd hn (by decide)
  unary hn := absurd hn (by decide)
  binary n hn hlow := absurd (Nat.lt_of_lt_of_le hlow hn) (by decide)
  conditional hn := absurd hn (by decide)
  assignment _ := h
  expression := h.readsExpression

theorem ReadsConditional.readable (h : ReadsConditional S ts e) : Readable S ts e Level.ternary where
  trailing hn := absurd hn (by decide)
  unary hn := absurd hn (by decide)
  binary n hn hlow := absurd (Nat.lt_of_lt_of_le hlow hn) (by decide)
  conditional _ := h
  assignment _ := h.readsAssignment
  expression := h.readsAssignment.readsExpression

theorem ReadsBinary.readable (h : ReadsBinary S ts e level) (hlow : Level.ternary < level)
    (hhigh : level < Level.unary) : Readable S ts e level where
  trailing hn := absurd (Nat.lt_of_le_of_lt hn hhigh) (by decide)
  unary hn := absurd (Nat.lt_of_le_of_lt hn hhigh) (Nat.lt_irrefl _)
  binary _ hn _ _ := h.mono hn
  conditional _ := h.readsConditional hlow
  assignment _ := (h.readsConditional hlow).readsAssignment
  expression := (h.readsConditional hlow).readsAssignment.readsExpression

theorem ReadsUnary.readable (h : ReadsUnary S ts e) : Readable S ts e Level.unary :=
  have hconditional := (h.readsBinary (Nat.le_refl _)).readsConditional (by decide)
  { trailing := fun hn => absurd hn (by decide)
    unary := fun _ => h
    binary := fun _ _ _ hn => h.readsBinary hn
    conditional := fun _ => hconditional
    assignment := fun _ => hconditional.readsAssignment
    expression := hconditional.readsAssignment.readsExpression }

theorem ReadsTrailing.readable (h : ReadsTrailing S ts e) (level : Nat) : Readable S ts e level :=
  have hunary := h.readsUnary.readable
  { trailing := fun _ => h
    unary := fun _ => h.readsUnary
    binary := fun _ _ _ hn => h.readsUnary.readsBinary hn
    conditional := fun _ => hunary.conditional (by decide)
    assignment := fun _ => hunary.assignment (by decide)
    expression := hunary.expression }

theorem Readable.mono {m n : Nat} (h : Readable S ts e n) (hm : m ≤ n) : Readable S ts e m where
  trailing hn := h.trailing (Nat.le_trans hn hm)
  unary hn := h.unary (Nat.le_trans hn hm)
  binary k hk := h.binary k (Nat.le_trans hk hm)
  conditional hn := h.conditional (Nat.le_trans hn hm)
  assignment hn := h.assignment (Nat.le_trans hn hm)
  expression := h.expression

end Expr

end GlslEs
