import GlslEs.Proofs.Writing.Readable
import Mathlib.Data.List.Forall2

/-!
# Reading each kind of expression

From the tokens of its operands, the tokens of an expression: one lemma for each kind of node, with the
level at which the node can be read.

* `Expr.readsTrailing_lit`, `Expr.readsTrailing_var`, `Expr.readsTrailing_call`: what selections may follow.
* `Expr.readsTrailing_enclosed`: **in parentheses, every expression is an operand of the highest level**.
* `Expr.readsBinary_binary`: operators that group to the left.
* `Expr.readsConditional_ternary`, `Expr.readsAssignment_assign`, `Expr.readsExpression_seq`: the loose ones.
-/

namespace GlslEs

/-- The token of a constant without a minus sign. -/
def Constant.token : Constant → Token
  | .float x => .float x
  | .int n => .int n.toUInt32
  | .uint n => .uint n
  | .bool b => .bool b

namespace Expr

variable {name : String} {tss : List (List Token)} {es args : List Expr} {F : Nat} {rest : List Token}
  {op : UnaryOp}

open Parse

variable {S : List String} {ts us : List Token} {e : Expr}

/-! ### Literals, names and parentheses -/

/-- A primary expression, with what may follow it. -/
theorem readsTrailing_of_primary (hopens : ∃ t rest, ts = t :: rest ∧ t.leading? = none)
    (h : ∀ {F : Nat} {t : Token} {rest : List Token}, 8 * ts.length ≤ F + 5 →
      t.reach ≤ Level.trailing + 1 →
      Reads (primary F) ⟨ts ++ t :: rest, S⟩ ⟨t :: rest, S⟩ fun e' => e'.bare = e.bare) :
    ReadsTrailing S ts e := by
  refine ⟨hopens, fun {f F t rest w Q} hF ht htail => ?_⟩
  have hpos : 0 < ts.length := by
    obtain ⟨t, rest, rfl, -⟩ := hopens
    simp
  obtain ⟨F, rfl⟩ : ∃ G, F = G + 1 := ⟨F - 1, by omega⟩
  rw [selection]
  exact (h (by omega) ht).bind fun e' he' => htail e' F (by omega) he'

theorem readsTrailing_lit (note : Note) (value : Constant) :
    ReadsTrailing S [value.token] (.lit note value) := by
  refine readsTrailing_of_primary ⟨_, _, rfl, by cases value <;> rfl⟩ fun {F t rest} hF _ => ?_
  obtain ⟨F, rfl⟩ : ∃ G, F = G + 1 := ⟨F - 1, by simp only [List.length_singleton] at hF; omega⟩
  refine (reads_advance (by cases value <;> exact Token.noConfusion)).bind ?_
  rintro ⟨token, loc⟩ rfl
  cases value with
  | float x => exact .pure rfl
  | int n => exact .pure (by simp [bare])
  | uint n | bool b => exact .pure rfl

theorem readsTrailing_var (note : Note) (hname : name ∉ S) :
    ReadsTrailing S [.identifier name] (.var note name) := by
  refine readsTrailing_of_primary ⟨_, _, rfl, rfl⟩ fun {F t rest} hF ht => ?_
  obtain ⟨F, rfl⟩ : ∃ G, F = G + 1 := ⟨F - 1, by simp only [List.length_singleton] at hF; omega⟩
  refine (reads_advance Token.noConfusion).bind ?_
  rintro ⟨token, loc⟩ rfl
  refine reads_isStruct_bind ?_
  rw [if_neg (by simpa using hname)]
  refine reads_check_bind ?_
  rw [if_neg]
  · exact .pure rfl
  · rw [beq_iff_eq]
    rintro rfl
    exact absurd ht (by decide)

/-- **In parentheses, every expression is an operand of the highest level.** -/
theorem readsTrailing_enclosed (h : ReadsExpression S ts e) :
    ReadsTrailing S (.punct .leftParen :: (ts ++ [.punct .rightParen])) e := by
  refine readsTrailing_of_primary ⟨_, _, rfl, rfl⟩ fun {F t rest} hF _ => ?_
  simp only [List.length_cons, List.length_append, List.length_nil] at hF
  obtain ⟨F, rfl⟩ : ∃ G, F = G + 1 := ⟨F - 1, by omega⟩
  rw [List.cons_append, List.append_assoc]
  refine (reads_advance Token.noConfusion).bind ?_
  rintro ⟨token, loc⟩ rfl
  refine (h.reads (by omega) rfl).bind fun e' he' => ?_
  exact (reads_expect .rightParen .parenClose).bind fun _ _ => .pure he'

/-! ### Lists of expressions -/

/-- The tokens of several expressions with a comma in front of each. -/
def commaTokens (tss : List (List Token)) : List Token :=
  tss.flatMap (.punct .comma :: ·)

theorem reads_commaTail (h : List.Forall₂ (ReadsAssignment S) tss es) {t : Token}
    (hF : 8 * (commaTokens tss).length + 1 ≤ F) (ht : t.reach = 0) :
    Reads (commaTail F) ⟨commaTokens tss ++ t :: rest, S⟩ ⟨t :: rest, S⟩
      fun es' => bareAll es' = bareAll es := by
  induction h generalizing F with
  | nil =>
    obtain ⟨F, rfl⟩ : ∃ G, F = G + 1 := ⟨F - 1, by omega⟩
    rw [commaTail]
    refine (reads_accept_of_ne ?_).bind ?_
    · rintro rfl
      exact absurd ht (by decide)
    · rintro _ rfl
      exact .pure rfl
  | @cons ts e tss es he _ ih =>
    have hlength : (commaTokens (ts :: tss)).length = 1 + ts.length + (commaTokens tss).length := by
      simp only [commaTokens, List.flatMap_cons, List.length_append, List.length_cons]
      omega
    obtain ⟨F, rfl⟩ : ∃ G, F = G + 1 := ⟨F - 1, by omega⟩
    have htokens : commaTokens (ts :: tss) ++ t :: rest =
        .punct .comma :: (ts ++ (commaTokens tss ++ t :: rest)) := by
      simp [commaTokens]
    -- What stands behind an item is a comma or the end of the list.
    obtain ⟨u, rest', hrest, hu⟩ : ∃ u rest', commaTokens tss ++ t :: rest = u :: rest' ∧
        u.reach ≤ Level.ternary := by
      cases tss with
      | nil => exact ⟨t, rest, rfl, by omega⟩
      | cons us uss => exact ⟨.punct .comma, _, rfl, by decide⟩
    rw [htokens, commaTail]
    refine (reads_accept .comma).bind ?_
    rintro _ rfl
    rw [if_pos rfl, hrest]
    refine (he.reads (by omega) hu).bind fun e' he' => ?_
    rw [← hrest]
    refine (ih (by omega)).bind fun es' hes' => .pure ?_
    rw [bareAll, bareAll, he', hes']

theorem readsExpression_seq (note : Note) (h : ReadsAssignment S ts e)
    (hes : List.Forall₂ (ReadsAssignment S) tss es) (hne : es ≠ []) :
    ReadsExpression S (ts ++ commaTokens tss) (.seq note (e :: es)) := by
  refine ⟨fun {F t rest} hF ht => ?_⟩
  obtain ⟨us, uss, rfl⟩ : ∃ us uss, tss = us :: uss := by
    cases hes with
    | nil => exact absurd rfl hne
    | cons => exact ⟨_, _, rfl⟩
  rw [List.length_append] at hF
  obtain ⟨F, rfl⟩ : ∃ G, F = G + 1 := ⟨F - 1, by omega⟩
  have hcomma : commaTokens (us :: uss) ++ t :: rest =
      .punct .comma :: (us ++ commaTokens uss ++ t :: rest) := by
    simp [commaTokens]
  have htail : Reads (commaTail F) ⟨commaTokens (us :: uss) ++ t :: rest, S⟩ ⟨t :: rest, S⟩
      fun es' => bareAll es' = bareAll es := reads_commaTail hes (by omega) ht
  rw [hcomma] at htail
  rw [List.append_assoc, hcomma, expression]
  refine (h.reads (by omega) (by decide)).bind fun e' he' => ?_
  refine reads_check_bind ?_
  rw [if_pos (by simp)]
  refine htail.bind fun es' hes' => .pure ?_
  simp only [bare, bareAll, he', hes']

/-! ### Calls -/

/-- The tokens of the arguments of a call. -/
inductive ReadsArguments (S : List String) : List Token → List Expr → Prop
  | nil : ReadsArguments S [] []
  | cons {ts : List Token} {e : Expr} {tss : List (List Token)} {es : List Expr}
      (hopens : ∃ t rest, ts = t :: rest ∧ t ≠ .punct .rightParen ∧
        ∀ ty, t = .typeName ty → ∃ u us, rest = u :: us ∧ u ≠ .punct .rightParen)
      (h : ReadsAssignment S ts e) (hes : List.Forall₂ (ReadsAssignment S) tss es) :
      ReadsArguments S (ts ++ commaTokens tss) (e :: es)

theorem reads_arguments (h : ReadsArguments S ts args) (hF : 8 * ts.length + 3 ≤ F) :
    Reads (arguments F) ⟨.punct .leftParen :: (ts ++ .punct .rightParen :: rest), S⟩ ⟨rest, S⟩
      fun args' => bareAll args' = bareAll args := by
  obtain ⟨F, rfl⟩ : ∃ G, F = G + 1 := ⟨F - 1, by omega⟩
  rw [arguments]
  refine (reads_expect .leftParen .argumentsOpen).bind fun _ _ => ?_
  have hclose {args' : List Expr} (h : bareAll args' = bareAll args) :
      Reads (do let _ ← expect .rightParen .argumentsClose; return args')
        ⟨.punct .rightParen :: rest, S⟩ ⟨rest, S⟩ fun args' => bareAll args' = bareAll args :=
    (reads_expect .rightParen .argumentsClose).bind fun _ _ => .pure h
  cases h with
  | nil =>
    refine reads_atVoidList_bind (fun ty hty => by cases hty) ?_
    refine reads_check_bind ?_
    exact hclose rfl
  | @cons ts e tss es hopens h hes =>
    obtain ⟨t, us, rfl, hparen, hvoid⟩ := hopens
    rw [List.length_append] at hF
    obtain ⟨u, rest', hrest, hu⟩ : ∃ u rest', commaTokens tss ++ .punct .rightParen :: rest = u :: rest' ∧
        u.reach ≤ Level.ternary := by
      cases tss with
      | nil => exact ⟨.punct .rightParen, rest, rfl, by decide⟩
      | cons us uss => exact ⟨.punct .comma, _, rfl, by decide⟩
    rw [List.append_assoc, List.cons_append]
    refine reads_atVoidList_bind ?_ ?_
    · rintro ty rfl -
      obtain ⟨u, us, rfl, hne⟩ := hvoid ty rfl
      simpa using hne
    · refine reads_check_bind ?_
      rw [if_neg (by simp), if_neg (by simpa using hparen), ← List.cons_append, hrest]
      refine (h.reads (by omega) hu).bind fun e' he' => ?_
      rw [← hrest]
      refine (reads_commaTail hes (by omega) rfl).bind fun es' hes' => ?_
      exact hclose (by rw [bareAll, bareAll, he', hes'])

theorem readsTrailing_call (note : Note) {callee : Callee}
    (hname : name ∉ S) (hcallee : callee.bare = .user name) (h : ReadsArguments S ts args) :
    ReadsTrailing S (.identifier name :: .punct .leftParen :: (ts ++ [.punct .rightParen]))
      (.call note callee args) := by
  refine readsTrailing_of_primary ⟨_, _, rfl, rfl⟩ fun {F t rest} hF _ => ?_
  simp only [List.length_cons, List.length_append, List.length_nil] at hF
  obtain ⟨F, rfl⟩ : ∃ G, F = G + 1 := ⟨F - 1, by omega⟩
  rw [List.cons_append, List.cons_append, List.append_assoc]
  refine (reads_advance Token.noConfusion).bind ?_
  rintro ⟨token, loc⟩ rfl
  refine reads_isStruct_bind ?_
  rw [if_neg (by simpa using hname)]
  refine reads_check_bind ?_
  rw [if_pos (by simp)]
  refine (reads_arguments h (by omega)).bind fun args' hargs' => .pure ?_
  rw [bare, bare, hcallee, hargs']
  rfl

/-- The tokens of the type of a constructor. -/
inductive NamesType (S : List String) : List Token → Ty → Prop
  | word (ty : Ty) : NamesType S [.typeName ty] ty
  | struct {name : String} (h : name ∈ S) : NamesType S [.identifier name] (.struct name)
  | array {t : Token} {ty : Ty} (h : NamesType S [t] ty) (size : UInt32) :
      NamesType S [t, .punct .leftBracket, .int size, .punct .rightBracket] (ty.withArray (some size.toNat))

theorem reads_constructorType_plain (ty : Ty) :
    Reads (constructorType ty) ⟨.punct .leftParen :: ts, S⟩ ⟨.punct .leftParen :: ts, S⟩ (· = ty) := by
  unfold constructorType
  refine (reads_accept_of_ne (by decide)).bind ?_
  rintro _ rfl
  exact .pure rfl

theorem reads_constructorType_array (ty : Ty) (size : UInt32) :
    Reads (constructorType ty) ⟨.punct .leftBracket :: .int size :: .punct .rightBracket :: ts, S⟩ ⟨ts, S⟩
      (· = ty.withArray (some size.toNat)) := by
  unfold constructorType
  refine (reads_accept .leftBracket).bind ?_
  rintro _ rfl
  refine (reads_accept_of_ne Token.noConfusion).bind ?_
  rintro _ rfl
  refine (reads_advance Token.noConfusion).bind ?_
  rintro ⟨token, loc⟩ rfl
  refine Reads.bind (.pure (Q := (· = size)) rfl) ?_
  rintro _ rfl
  exact (reads_expect .rightBracket .bracketClose).bind fun _ _ => .pure rfl

/-- The rest of a constructor, behind the word of its type. -/
theorem reads_construct {t : Token} {ty word : Ty} {typeTokens : List Token}
    (htype : NamesType S (t :: typeTokens) ty) (hword : NamesType S [t] word)
    (h : ReadsArguments S ts args) (hF : 8 * ts.length + 3 ≤ F) (note note' : Note) :
    Reads (do
        let ty ← constructorType word
        let args ← arguments F
        return Expr.call note (.constructor ty) args)
      ⟨typeTokens ++ .punct .leftParen :: (ts ++ .punct .rightParen :: rest), S⟩ ⟨rest, S⟩
      fun e' => e'.bare = (Expr.call note' (.constructor ty) args).bare := by
  have harguments (ty : Ty) : Reads (do let args ← arguments F; return Expr.call note (.constructor ty) args)
      ⟨.punct .leftParen :: (ts ++ .punct .rightParen :: rest), S⟩ ⟨rest, S⟩
      fun e' => e'.bare = (Expr.call note' (.constructor ty) args).bare := by
    refine (reads_arguments h hF).bind fun args' hargs' => .pure ?_
    rw [bare, bare, hargs']
  have hunique {a b : Ty} (ha : NamesType S [t] a) (hb : NamesType S [t] b) : a = b := by
    cases ha <;> cases hb <;> rfl
  cases htype with
  | word ty =>
    obtain rfl := hunique hword (.word ty)
    refine (reads_constructorType_plain _).bind ?_
    rintro _ rfl
    exact harguments _
  | struct hname =>
    obtain rfl := hunique hword (.struct hname)
    refine (reads_constructorType_plain _).bind ?_
    rintro _ rfl
    exact harguments _
  | array hty size =>
    obtain rfl := hunique hword hty
    refine (reads_constructorType_array _ size).bind ?_
    rintro _ rfl
    exact harguments _

theorem readsTrailing_construct (note : Note) {ty : Ty} (htype : NamesType S us ty)
    (h : ReadsArguments S ts args) :
    ReadsTrailing S (us ++ .punct .leftParen :: (ts ++ [.punct .rightParen]))
      (.call note (.constructor ty) args) := by
  obtain ⟨t, us', word, rfl, hword⟩ : ∃ t us' word, us = t :: us' ∧ NamesType S [t] word := by
    cases htype with
    | word ty => exact ⟨_, _, ty, rfl, .word ty⟩
    | struct hname => exact ⟨_, _, _, rfl, .struct hname⟩
    | array hty size => exact ⟨_, _, _, rfl, hty⟩
  refine readsTrailing_of_primary ⟨t, _, rfl, by cases hword <;> rfl⟩ fun {F u rest} hF _ => ?_
  simp only [List.length_cons, List.length_append, List.length_nil] at hF
  obtain ⟨F, rfl⟩ : ∃ G, F = G + 1 := ⟨F - 1, by omega⟩
  rw [List.append_assoc, List.cons_append, List.cons_append, List.append_assoc]
  refine (reads_advance (by cases hword <;> exact Token.noConfusion)).bind ?_
  rintro ⟨token, loc⟩ rfl
  cases hword with
  | word word => exact reads_construct htype (.word word) h (by omega) _ note
  | @struct name hname =>
    refine reads_isStruct_bind ?_
    rw [if_pos (by simpa using hname)]
    exact reads_construct htype (.struct hname) h (by omega) _ note

/-! ### Selections -/

theorem readsTrailing_index (note : Note) {position : Expr} (h : ReadsTrailing S ts e)
    (hposition : ReadsExpression S us position) :
    ReadsTrailing S (ts ++ .punct .leftBracket :: (us ++ [.punct .rightBracket]))
      (.index note e position) := by
  obtain ⟨t, rest, hts, hleading⟩ := h.opens
  refine ⟨⟨t, _, by rw [hts]; rfl, hleading⟩, fun {f F u rest' w Q} hF hu htail => ?_⟩
  simp only [List.length_append, List.length_cons, List.length_nil] at hF
  rw [List.append_assoc, List.cons_append, List.append_assoc]
  refine h.reads (f := f + 8 * us.length + 16) (by omega) (by decide) fun e' f' hf' he' => ?_
  obtain ⟨f', rfl⟩ : ∃ g, f' = g + 1 := ⟨f' - 1, by omega⟩
  rw [selectionTail]
  refine reads_token_bind ?_
  refine (reads_advance Token.noConfusion).bind fun _ _ => ?_
  refine (hposition.reads (by omega) rfl).bind fun position' hposition' => ?_
  refine (reads_expect .rightBracket .indexClose).bind fun _ _ => ?_
  exact htail _ f' (by omega) (by rw [bare, bare, he', hposition'])

theorem readsTrailing_field (h : ReadsTrailing S ts e) (name : String) {selected : Expr}
    (hselected : selected.bare = .field (.unresolved .none) e.bare name) :
    ReadsTrailing S (ts ++ [.punct .dot, .identifier name]) selected := by
  obtain ⟨t, rest, rfl, hleading⟩ := h.opens
  refine ⟨⟨t, _, rfl, hleading⟩, fun {f F u rest' w Q} hF hu htail => ?_⟩
  simp only [List.length_append, List.length_cons, List.length_nil] at hF
  rw [List.append_assoc]
  refine h.reads (f := f + 16) (by simp only [List.length_cons]; omega) (by decide) fun e' f' hf' he' => ?_
  obtain ⟨f', rfl⟩ : ∃ g, f' = g + 1 := ⟨f' - 1, by omega⟩
  rw [selectionTail]
  refine reads_token_bind ?_
  refine (reads_advance Token.noConfusion).bind fun _ _ => ?_
  refine (reads_name name .fieldName).bind ?_
  rintro _ rfl
  refine reads_check_bind ?_
  rw [if_neg]
  · exact htail _ f' (by omega) (by rw [hselected, bare, he'])
  · rw [beq_iff_eq]
    rintro rfl
    exact absurd hu (by decide)

theorem readsTrailing_behind (note : Note) (hop : op.isTrailing = true)
    (h : ReadsTrailing S ts e) : ReadsTrailing S (ts ++ [.punct op.sign]) (.unary note op e) := by
  obtain ⟨t, rest, rfl, hleading⟩ := h.opens
  refine ⟨⟨t, _, rfl, hleading⟩, fun {f F u rest' w Q} hF hu htail => ?_⟩
  rw [List.length_append, List.length_singleton] at hF
  rw [List.append_assoc]
  refine h.reads (f := f + 8) (by omega) ?_ fun e' f' hf' he' => ?_
  · cases op <;> decide
  obtain ⟨f', rfl⟩ : ∃ g, f' = g + 1 := ⟨f' - 1, by omega⟩
  rw [selectionTail]
  refine reads_token_bind ?_
  have hnode : ((Expr.unary (.unresolved e'.loc) op e').bare = (Expr.unary note op e).bare) := by
    rw [bare, bare, he']
  cases op with
  | postIncrement | postDecrement =>
    exact (reads_advance Token.noConfusion).bind fun _ _ => htail _ f' (by omega) hnode
  | _ => cases hop

/-! ### Operators -/

theorem readsUnary_front (note : Note) (hop : op.isTrailing = false)
    (h : ReadsUnary S ts e) : ReadsUnary S (.punct op.sign :: ts) (.unary note op e) := by
  refine ⟨by simp, fun {F t rest} hF ht => ?_⟩
  rw [List.length_cons] at hF
  obtain ⟨F, rfl⟩ : ∃ G, F = G + 1 := ⟨F - 1, by omega⟩
  have hleading : UnaryOp.leading? op.sign = some op := by
    cases op <;> first | rfl | cases hop
  rw [List.cons_append, Parse.unary]
  refine reads_token_bind ?_
  simp only [hleading]
  refine (reads_advance Token.noConfusion).bind fun l _ => ?_
  refine (h.reads (by omega) ht).bind fun e' he' => .pure ?_
  rw [bare, bare, he']

theorem readsBinary_binary (note : Note) (op : BinaryOp) {left right : Expr}
    (hleft : ReadsBinary S ts left op.precedence) (hright : ReadsBinary S us right (op.precedence + 1)) :
    ReadsBinary S (ts ++ .punct op.sign :: us) (.binary note op left right) op.precedence := by
  refine ⟨by rw [List.length_append, List.length_cons]; omega, fun {f F min t rest w Q} hF hmin ht htail => ?_⟩
  rw [List.length_append, List.length_cons] at hF
  rw [List.append_assoc, List.cons_append]
  refine hleft.reads (f := f + 8 * us.length + 8) (by omega) hmin
    (Nat.le_of_eq (Token.reach_binary op)) fun left' f' hf' hleft' => ?_
  obtain ⟨f', rfl⟩ : ∃ g, f' = g + 1 := ⟨f' - 1, by omega⟩
  rw [binaryTail]
  refine reads_token_bind ?_
  simp only [BinaryOp.ofSign?_sign]
  rw [if_neg (Nat.not_lt.mpr hmin)]
  refine (reads_advance Token.noConfusion).bind fun _ _ => ?_
  -- The right operand ends in front of every operator that binds as this one.
  refine (hright.reads_complete (by omega) (Nat.le_refl _) (Nat.le_succ_of_le ht) ?_).bind
    fun right' hright' => htail _ f' (by omega) (by rw [bare, bare, hleft', hright'])
  rintro other rfl
  rw [Token.reach_binary] at ht
  omega

theorem readsConditional_ternary (note : Note) {cs : List Token} {condition ifTrue ifFalse : Expr}
    (hcondition : ReadsBinary S cs condition (Level.ternary + 1)) (htrue : ReadsAssignment S ts ifTrue)
    (hfalse : ReadsConditional S us ifFalse) :
    ReadsConditional S (cs ++ .punct .question :: (ts ++ .punct .colon :: us))
      (.ternary note condition ifTrue ifFalse) := by
  refine ⟨fun {F t rest} hF ht => ?_⟩
  simp only [List.length_append, List.length_cons] at hF
  obtain ⟨F, rfl⟩ : ∃ G, F = G + 1 := ⟨F - 1, by omega⟩
  rw [List.append_assoc, List.cons_append, List.append_assoc, List.cons_append, conditional]
  refine (hcondition.reads_complete (by omega) (Nat.zero_le _) (by decide) ?_).bind
    fun condition' hcondition' => ?_
  · intro op hop
    have hreach := congrArg Token.reach hop
    have hprecedence := op.three_le_precedence
    rw [Token.reach_binary] at hreach
    have : Token.reach (.punct .question) = 3 := rfl
    omega
  · refine (reads_accept .question).bind ?_
    rintro _ rfl
    rw [if_pos rfl]
    refine (htrue.readsExpression.reads (by omega) rfl).bind fun ifTrue' htrue' => ?_
    refine (reads_expect .colon .ternaryColon).bind fun _ _ => ?_
    refine (hfalse.readsAssignment.reads (by omega) ht).bind fun ifFalse' hfalse' => .pure ?_
    rw [bare, bare, hcondition', htrue', hfalse']

theorem readsAssignment_assign (note : Note) (op : AssignOp) {target value : Expr}
    (htarget : ReadsUnary S ts target) (hvalue : ReadsAssignment S us value) :
    ReadsAssignment S (ts ++ .punct op.sign :: us) (.assign note op target value) := by
  refine ⟨fun {F t rest} hF ht => ?_⟩
  simp only [List.length_append, List.length_cons] at hF
  obtain ⟨F, rfl⟩ : ∃ G, F = G + 1 := ⟨F - 1, by omega⟩
  rw [List.append_assoc, List.cons_append, assignment]
  refine ((htarget.readsBinary (Nat.le_refl _)).reads_conditional (by decide) (by omega)
    (Nat.le_of_eq (Token.reach_assign op)) ?_).bind fun target' htarget' => ?_
  · rcases op with _ | op
    · decide
    · cases op <;> decide
  · refine reads_token_bind ?_
    simp only [AssignOp.ofSign?_sign]
    refine (reads_advance Token.noConfusion).bind fun _ _ => ?_
    refine (hvalue.reads (by omega) ht).bind fun value' hvalue' => .pure ?_
    rw [bare, bare, htarget', hvalue']

end Expr

end GlslEs
