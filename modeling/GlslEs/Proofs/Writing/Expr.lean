import GlslEs.Proofs.Writing.Laid
import GlslEs.Proofs.Writing.Operators

/-!
# Writing expressions and reading them again

The text of an expression has parentheses only where the levels of its operators need them and blanks
only where two pieces would be read as one.  It is read as the expression that was written.

* `Expr.Written`: the expressions that have a text of their own: names are names, literals have no minus
  sign, and a list with commas has at least two items.
* `Expr.Written.parsed`: **the tokens of the pieces are read as the expression**, at the level needed.
* `Expr.Written.laid`: **the pieces are apart**, so the text has those tokens.
* `Expr.exists_expression_text`: reading the text of an expression gives the expression back.
-/

namespace GlslEs

/-- What is called is a type or has a name that no structure has. -/
def Callee.Written (S : List String) : Callee → Prop
  | .constructor ty => ty.Written S
  | .user name | .builtin name => IsName name ∧ name ∉ S

namespace Expr

variable {e : Expr} {ts : List Token} {es : List Expr} {strict : Bool}

/-- What writing asks of a node, apart from the nodes below it. -/
def NodeWritten (S : List String) : Expr → Prop
  | .lit _ value => value.Readable
  | .var _ name => IsName name ∧ name ∉ S
  | .call _ callee _ => callee.Written S
  | .swizzle _ _ _ components => components ≠ [] ∧ ∀ i ∈ components, i < 4
  | .field _ _ name => IsName name
  | .seq _ exprs => 2 ≤ exprs.length
  | .unary .. | .binary .. | .assign .. | .ternary .. | .index .. => True

/-- Every node has a text of its own where the structures `S` are known. -/
def Written (S : List String) (e : Expr) : Prop := ∀ x ∈ e.nodes, x.NodeWritten S

variable {S : List String}

theorem written_iff : e.Written S ↔ e.NodeWritten S ∧ ∀ c ∈ e.children, c.Written S :=
  forall_mem_nodes

/-! ### Pieces and levels -/

/-- The tokens of an expression where a level is needed. -/
def tokens (needed : Nat) (e : Expr) : List Token := Piece.tokensOf (e.pieces needed)

theorem tokens_eq_enclosed (needed : Nat) (e : Expr) :
    e.tokens needed = if e.level < needed then
      .punct .leftParen :: (e.tokens Level.sequence ++ [.punct .rightParen]) else e.tokens Level.sequence := by
  rw [tokens, pieces_eq_enclosed, enclosed]
  split
  · simp [tokens]
  · rfl

theorem tokens_itemPieces (e : Expr) (es : List Expr) :
    Piece.tokensOf (itemPieces (e :: es)) =
      e.tokens Level.assign ++ commaTokens (es.map (tokens Level.assign)) := by
  induction es generalizing e with
  | nil => simp [itemPieces, commaTokens, tokens]
  | cons e' es ih =>
    have hspace : Piece.space.tokens = [] := rfl
    rw [itemPieces]
    · simp [ih e', Piece.comma, commaTokens, tokens, hspace]
    · exact List.cons_ne_nil e' es

/-! ### How expressions start -/

/-- A token that an operand may start with, apart from the words of types. -/
def StartsOperand (S : List String) : Token → Prop
  | .int _ | .uint _ | .float _ | .bool _ => True
  | .identifier name => name ∉ S
  | .punct sign => sign = .leftParen ∨ (UnaryOp.leading? sign).isSome = true
  | _ => False

/-- How the tokens of an expression start: with an operand, or with a type in front of parentheses. -/
inductive Opening (S : List String) : List Token → Prop
  | operand {t : Token} (ts : List Token) (h : StartsOperand S t) : Opening S (t :: ts)
  | construct {us : List Token} {ty : Ty} (ts : List Token) (h : NamesType S us ty) :
      Opening S (us ++ .punct .leftParen :: ts)

theorem Opening.append (h : Opening S ts) (us : List Token) : Opening S (ts ++ us) := by
  cases h with
  | operand ts h => exact .operand (ts ++ us) h
  | construct ts h =>
    rw [List.append_assoc, List.cons_append]
    exact .construct (ts ++ us) h

/-- An expression does not start like an empty list of arguments. -/
theorem Opening.not_void (h : Opening S ts) :
    ∃ t rest, ts = t :: rest ∧ t ≠ .punct .rightParen ∧
      ∀ ty, t = .typeName ty → ∃ u us, rest = u :: us ∧ u ≠ .punct .rightParen := by
  cases h with
  | @operand t ts h =>
    refine ⟨t, ts, rfl, ?_, ?_⟩
    · rintro rfl
      rcases h with h | h <;> cases h
    · rintro ty rfl
      cases h
  | construct ts h =>
    cases h with
    | word ty | struct hname => exact ⟨_, _, rfl, Token.noConfusion, fun _ _ => ⟨_, _, rfl, by decide⟩⟩
    | array hty size =>
      refine ⟨_, _, rfl, ?_, fun _ _ => ⟨_, _, rfl, by decide⟩⟩
      cases hty <;> exact Token.noConfusion

/-! ### Reading the tokens -/

/-- The tokens of an expression are read as the expression, and they start like one. -/
structure Parsed (S : List String) (e : Expr) : Prop where
  readable : Readable S (e.tokens Level.sequence) e e.level
  opening : Opening S (e.tokens Level.sequence)

/-- Where a higher level is needed, there are parentheses. -/
theorem Parsed.readable_tokens (h : Parsed S e) (needed : Nat) :
    Readable S (e.tokens needed) e needed := by
  rw [tokens_eq_enclosed]
  split
  · exact (readsTrailing_enclosed h.readable.expression).readable needed
  · exact h.readable.mono (Nat.le_of_not_lt ‹_›)

theorem Parsed.opening_tokens (h : Parsed S e) (needed : Nat) : Opening S (e.tokens needed) := by
  rw [tokens_eq_enclosed]
  split
  · exact .operand _ (.inl rfl)
  · exact h.opening

theorem Parsed.readsAssignment (h : Parsed S e) : ReadsAssignment S (e.tokens Level.assign) e :=
  (h.readable_tokens Level.assign).assignment (Nat.le_refl _)

theorem forall₂_readsAssignment (h : ∀ e ∈ es, Parsed S e) :
    List.Forall₂ (ReadsAssignment S) (es.map (tokens Level.assign)) es := by
  rw [List.forall₂_map_left_iff, List.forall₂_same]
  exact fun e he => (h e he).readsAssignment

theorem readsArguments_itemPieces (h : ∀ e ∈ es, Parsed S e) :
    ReadsArguments S (Piece.tokensOf (itemPieces es)) es := by
  cases es with
  | nil => exact .nil
  | cons e es =>
    have he := h e List.mem_cons_self
    rw [tokens_itemPieces]
    exact .cons (he.opening_tokens _).not_void he.readsAssignment
      (forall₂_readsAssignment fun e' he' => h e' (List.mem_cons_of_mem e he'))

/-- The tokens of a base may be followed by a selection. -/
theorem Parsed.readsTrailing_base (h : Parsed S e) : ReadsTrailing S (e.tokens e.baseLevel) e :=
  (h.readable_tokens e.baseLevel).trailing e.trailing_le_baseLevel

theorem tokens_call (note : Note) (callee : Callee) (args : List Expr) {us : List Token}
    (h : Lexer.SpellsAll callee.name.toList us) :
    (call note callee args).tokens Level.sequence =
      us ++ .punct .leftParen :: (Piece.tokensOf (itemPieces args) ++ [.punct .rightParen]) := by
  have hname : (Piece.word callee.name).tokens = us := Piece.tokens_eq h
  simp [tokens, pieces, enclosed, Level.sequence, hname]

theorem parsed_call (note : Note) {callee : Callee} {args : List Expr}
    (hcallee : callee.Written S) (hargs : ∀ e ∈ args, Parsed S e) : Parsed S (.call note callee args) := by
  have harguments := readsArguments_itemPieces hargs
  -- Names and types differ only in the tokens in front of the parentheses.
  have hnamed {name : String} (hname : IsName name ∧ name ∉ S) (hcallee : callee.bare = .user name)
      (htext : callee.name = name) : Parsed S (.call note callee args) := by
    have hspells := Lexer.spellsAll_name hname.1
    rw [← htext] at hspells
    have htokens := tokens_call note callee args hspells
    rw [htext] at htokens
    exact ⟨htokens ▸ (readsTrailing_call note hname.2 hcallee harguments).readable _,
      htokens ▸ .operand _ hname.2⟩
  cases callee with
  | user name | builtin name => exact hnamed hcallee rfl rfl
  | constructor ty =>
    obtain ⟨us, htype, hspells, -⟩ := Ty.exists_spellsAll hcallee
    have htokens := tokens_call note (.constructor ty) args hspells
    exact ⟨htokens ▸ (readsTrailing_construct note htype harguments).readable _,
      htokens ▸ .construct _ htype⟩

theorem parsed_unary (note : Note) (op : UnaryOp) {operand : Expr} (h : Parsed S operand) :
    Parsed S (.unary note op operand) := by
  have hsign : (Piece.word op.text).tokens = [.punct op.sign] := Piece.IsSign.tokens ⟨rfl, rfl⟩
  by_cases hop : op.isTrailing = true
  · have htokens : (unary note op operand).tokens Level.sequence =
        operand.tokens Level.trailing ++ [.punct op.sign] := by
      simp [tokens, pieces, enclosed, Level.sequence, hop, hsign]
    have hlevel : (unary note op operand).level = Level.trailing := if_pos hop
    refine ⟨?_, htokens ▸ (h.opening_tokens _).append _⟩
    rw [htokens, hlevel]
    exact (readsTrailing_behind note hop
      ((h.readable_tokens Level.trailing).trailing (Nat.le_refl _))).readable _
  · rw [Bool.not_eq_true] at hop
    have htokens : (unary note op operand).tokens Level.sequence =
        .punct op.sign :: operand.tokens Level.unary := by
      simp [tokens, pieces, enclosed, Level.sequence, hop, hsign]
    have hlevel : (unary note op operand).level = Level.unary := if_neg (by simp [hop])
    refine ⟨?_, htokens ▸ .operand _ (.inr ?_)⟩
    · rw [htokens, hlevel]
      exact (readsUnary_front note hop ((h.readable_tokens Level.unary).unary (Nat.le_refl _))).readable
    · cases op <;> rfl

/-- **The tokens of an expression are read as the expression.** -/
theorem Written.parsed (h : e.Written S) : Parsed S e := by
  induction e using forall_of_children with
  | h e ih =>
  obtain ⟨hnode, hchildren⟩ := written_iff.mp h
  have ih := fun c hc => ih c hc (hchildren c hc)
  cases e with
  | lit note value =>
    have htokens : (lit note value).tokens Level.sequence = [value.token] := by
      have hvalue : (Piece.word value.spelling).tokens = [value.token] :=
        Piece.tokens_eq (Lexer.spellsAll_constant hnode)
      simp [tokens, pieces, enclosed, Level.sequence, hvalue]
    exact ⟨htokens ▸ (readsTrailing_lit note value).readable _,
      htokens ▸ .operand _ (by cases value <;> trivial)⟩
  | var note name =>
    have htokens : (var note name).tokens Level.sequence = [.identifier name] := by
      have hname : (Piece.word name).tokens = [.identifier name] :=
        Piece.tokens_eq (Lexer.spellsAll_name hnode.1)
      simp [tokens, pieces, enclosed, Level.sequence, hname]
    exact ⟨htokens ▸ (readsTrailing_var note hnode.2).readable _, htokens ▸ .operand _ hnode.2⟩
  | unary note op operand => exact parsed_unary note op (ih operand (by simp [children]))
  | binary note op left right =>
    have hleft := ih left (by simp [children])
    have hright := ih right (by simp [children])
    have hlow := op.three_le_precedence
    have hhigh := op.precedence_le
    have htokens : (binary note op left right).tokens Level.sequence =
        left.tokens op.precedence ++ .punct op.sign :: right.tokens (op.precedence + 1) := by
      have hsign : (Piece.operator op.text).tokens = [.punct op.sign] := Piece.IsSign.tokens ⟨rfl, rfl⟩
      simp [tokens, pieces, enclosed, Level.sequence, hsign]
    refine ⟨?_, htokens ▸ (hleft.opening_tokens _).append _⟩
    rw [htokens]
    refine (readsBinary_binary note op
      ((hleft.readable_tokens _).binary _ (Nat.le_refl _) hlow (by simp only [Level.unary]; omega))
      ((hright.readable_tokens _).binary _ (Nat.le_refl _) (by simp only [Level.ternary]; omega)
        (by simp only [Level.unary]; omega))).readable hlow ?_
    exact Nat.lt_succ_of_le hhigh
  | assign note op target value =>
    have htarget := ih target (by simp [children])
    have hvalue := ih value (by simp [children])
    have htokens : (assign note op target value).tokens Level.sequence =
        target.tokens Level.unary ++ .punct op.sign :: value.tokens Level.assign := by
      have hsign : (Piece.operator op.text).tokens = [.punct op.sign] := Piece.IsSign.tokens ⟨rfl, rfl⟩
      simp [tokens, pieces, enclosed, Level.sequence, hsign]
    refine ⟨?_, htokens ▸ (htarget.opening_tokens _).append _⟩
    rw [htokens]
    exact (readsAssignment_assign note op ((htarget.readable_tokens _).unary (Nat.le_refl _))
      hvalue.readsAssignment).readable
  | ternary note condition ifTrue ifFalse =>
    have hcondition := ih condition (by simp [children])
    have htrue := ih ifTrue (by simp [children])
    have hfalse := ih ifFalse (by simp [children])
    have htokens : (ternary note condition ifTrue ifFalse).tokens Level.sequence =
        condition.tokens (Level.ternary + 1) ++ .punct .question ::
          (ifTrue.tokens Level.assign ++ .punct .colon :: ifFalse.tokens Level.ternary) := by
      simp [tokens, pieces, enclosed, Level.sequence]
    refine ⟨?_, htokens ▸ (hcondition.opening_tokens _).append _⟩
    rw [htokens]
    exact (readsConditional_ternary note
      ((hcondition.readable_tokens _).binary _ (Nat.le_refl _) (Nat.lt_succ_self _) (by decide))
      htrue.readsAssignment ((hfalse.readable_tokens _).conditional (Nat.le_refl _))).readable
  | call note callee args => exact parsed_call note hnode ih
  | swizzle note base set components =>
    have hbase := ih base (by simp [children])
    have htokens : (swizzle note base set components).tokens Level.sequence =
        base.tokens base.baseLevel ++ [.punct .dot, .identifier (set.word components)] := by
      have hword : (Piece.tight (set.word components)).tokens = [.identifier (set.word components)] :=
        Piece.tokens_eq (Lexer.spellsAll_name (SwizzleSet.isName_word hnode.1 hnode.2))
      simp [tokens, pieces, enclosed, Level.sequence, hword]
    refine ⟨?_, htokens ▸ (hbase.opening_tokens _).append _⟩
    rw [htokens]
    exact (readsTrailing_field hbase.readsTrailing_base _ rfl).readable _
  | field note base name =>
    have hbase := ih base (by simp [children])
    have htokens : (field note base name).tokens Level.sequence =
        base.tokens base.baseLevel ++ [.punct .dot, .identifier name] := by
      have hname : (Piece.tight name).tokens = [.identifier name] :=
        Piece.tokens_eq (Lexer.spellsAll_name hnode)
      simp [tokens, pieces, enclosed, Level.sequence, hname]
    refine ⟨?_, htokens ▸ (hbase.opening_tokens _).append _⟩
    rw [htokens]
    exact (readsTrailing_field hbase.readsTrailing_base _ rfl).readable _
  | index note base position =>
    have hbase := ih base (by simp [children])
    have hposition := ih position (by simp [children])
    have htokens : (index note base position).tokens Level.sequence =
        base.tokens base.baseLevel ++ .punct .leftBracket ::
          (position.tokens Level.sequence ++ [.punct .rightBracket]) := by
      simp [tokens, pieces, enclosed, Level.sequence]
    refine ⟨?_, htokens ▸ (hbase.opening_tokens _).append _⟩
    rw [htokens]
    exact (readsTrailing_index note hbase.readsTrailing_base hposition.readable.expression).readable _
  | seq note exprs =>
    obtain ⟨e, es, rfl⟩ : ∃ e es, exprs = e :: es := by
      cases exprs with
      | nil => exact absurd hnode (by simp [NodeWritten])
      | cons e es => exact ⟨e, es, rfl⟩
    have he := ih e (by simp [children])
    have htokens : (seq note (e :: es)).tokens Level.sequence =
        e.tokens Level.assign ++ commaTokens (es.map (tokens Level.assign)) := by
      rw [← tokens_itemPieces]
      simp [tokens, pieces, enclosed, Level.sequence]
    refine ⟨?_, htokens ▸ (he.opening_tokens _).append _⟩
    rw [htokens]
    refine (readsExpression_seq note he.readsAssignment (forall₂_readsAssignment fun e' he' =>
      ih e' (by simp [children, he'])) ?_).readable
    rintro rfl
    exact absurd hnode (by simp [NodeWritten])

theorem NodeWritten.nodeLaid (h : e.NodeWritten S) : e.NodeLaid strict := by
  cases e with
  | var note name => exact h.1.wordlike
  | call note callee args =>
    cases callee with
    | user name | builtin name => exact operand_name h.1.wordlike
    | constructor ty => exact operand_type h
  | swizzle note base set components => exact (SwizzleSet.isName_word h.1 h.2).wordlike
  | field note base name => exact h.wordlike
  | seq note exprs =>
    rintro rfl
    exact absurd h (by simp [NodeWritten])
  | _ => exact trivial

/-- **The pieces of an expression are apart**, so its text has their tokens. -/
theorem Written.laid (h : e.Written S) : Laid strict e :=
  laid_of_nodes fun x hx => (h x hx).nodeLaid

/-! ### Text -/

/-- **Reading the text of an expression gives the expression back**: the text is tokenized, all tokens in
front of the closing one belong to the expression, and what is read differs only in places and types.  A
selection of components is read as that of a member, and a built-in function as one of the user. -/
theorem exists_expression_text (S : List String) (e : Expr) (h : e.Written S) :
    ∃ ls, Lexer.tokenize e.text = .ok ls ∧
      ∃ e' c, Parse.expression (Cursor.knowing S ls).fuel (Cursor.knowing S ls) = .ok (e', c) ∧
        c.rest.map (·.token) = [.endOfText] ∧ e'.bare = e.bare := by
  obtain ⟨ls, hls, htokens⟩ := h.laid.operand.legible.exists_tokenize .compact
  have hlength : ls.length = (e.tokens Level.sequence).length + 1 := by
    simpa [tokens] using congrArg List.length htokens
  have hfuel : 8 * (e.tokens Level.sequence).length + 3 ≤ (Cursor.knowing S ls).fuel := by
    show _ ≤ 16 * (ls.length + 1)
    omega
  have hview : (Cursor.knowing S ls).view = ⟨e.tokens Level.sequence ++ [.endOfText], S⟩ :=
    congrArg (View.mk · S) htokens
  obtain ⟨e', c, hread, hc, he'⟩ := h.parsed.readable.expression.reads hfuel rfl _ hview
  exact ⟨ls, hls, e', c, hread, congrArg View.tokens hc, he'⟩

/-- The expression `a-- - -b, x *= c ? Light[2](.5).p[1] : sin(v).xy`. -/
theorem exists_expression_text_mixed : let n : Note := .unresolved .none
    let e : Expr := .seq n
      [.binary n (.arith .sub) (.unary n .postDecrement (.var n "a")) (.unary n .minus (.var n "b")),
        .assign n (.joined .mul) (.var n "x") (.ternary n (.var n "c")
          (.index n (.field n (.call n (.constructor ⟨.struct "Light", some 2⟩) [.lit n (.float ⟨0x3f000000⟩)]) "p")
            (.lit n (.int 1)))
          (.swizzle n (.call n (.builtin "sin") [.var n "v"]) .xyzw [0, 1]))]
    e.Written ["Light"] ∧ ∃ ls, Lexer.tokenize e.text = .ok ls ∧
      ∃ e' c, Parse.expression (Cursor.knowing ["Light"] ls).fuel (Cursor.knowing ["Light"] ls) = .ok (e', c) ∧
        c.rest.map (·.token) = [.endOfText] ∧ e'.bare = e.bare := by
  intro n e
  have hname : ∀ name ∈ ["a", "b", "x", "c", "p", "sin", "v", "Light"], IsName name := by
    simp only [List.forall_mem_cons]
    refine ⟨?_, ?_, ?_, ?_, ?_, ?_, ?_, ?_, by simp⟩ <;>
      exact ⟨⟨_, _, rfl, by decide⟩, by decide, by decide, rfl⟩
  have hhalf : Single.ReadsBack ⟨0x3f000000⟩ := ⟨'.', ['5'], by decide +kernel, by decide +kernel⟩
  have htype : Ty.Written ["Light"] ⟨.struct "Light", some 2⟩ :=
    ⟨.struct "Light", .inr ⟨"Light", by decide, hname _ (by decide), rfl⟩, .inr ⟨2, by decide, rfl⟩⟩
  have h : e.Written ["Light"] := by
    simp only [List.forall_mem_cons] at hname
    obtain ⟨ha, hb, hx, hc, hp, hsin, hv, -⟩ := hname
    simp [e, Written, nodes, nodesAll, NodeWritten, Callee.Written, Constant.Readable, ha, hb, hx, hc, hp, hsin,
      hv, hhalf, htype]
  exact ⟨h, exists_expression_text ["Light"] e h⟩

end Expr

end GlslEs
