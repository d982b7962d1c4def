import GlslEs.Proofs.Reading.Spelled
import GlslEs.Proofs.Writing.Expr
import GlslEs.Stmt.Parser

/-!
# Reading written statements

An `else` belongs to the last `if` that has none.  A statement can therefore be read in front of every
token except in front of `else`, where it must not end in an `if` without one; writing adds braces exactly
where this would go wrong.

* `Stmt.Written D S`: the statements that have a text of their own, with declarations out of `D`.
* `Stmt.Parsed`: the tokens of a statement are read as the statement with the braces that writing adds.
* `Stmt.Written.parsed`: **every statement without declarations that is written is read**.
-/

namespace GlslEs

open Parse

/-! ### Words of the language -/

theorem Keyword.ofWord_text (k : Keyword) : Token.ofWord k.text = .keyword k := by
  cases k <;> rfl

theorem Lexer.spellsAll_keyword (k : Keyword) : SpellsAll k.text.toList [.keyword k] :=
  k.ofWord_text ▸ spellsAll_word k.wordlike

namespace Piece

theorem tokens_keyword {p : Piece} {k : Keyword} (h : p.text = k.text.toList) :
    p.tokens = [.keyword k] :=
  tokens_eq (h ▸ Lexer.spellsAll_keyword k)

@[simp] theorem tokens_space : Piece.space.tokens = [] := rfl

@[simp] theorem tokens_line : Piece.line.tokens = [] := rfl

@[simp] theorem tokens_indent : Piece.indent.tokens = [] := rfl

@[simp] theorem tokens_outdent : Piece.outdent.tokens = [] := rfl

@[simp] theorem tokens_tight_semicolon : (Piece.tight ";").tokens = [.punct .semicolon] :=
  IsSign.tokens ⟨rfl, rfl⟩

@[simp] theorem tokens_tight_colon : (Piece.tight ":").tokens = [.punct .colon] :=
  IsSign.tokens ⟨rfl, rfl⟩

@[simp] theorem tokens_tight_leftBrace : (Piece.tight "\x7b").tokens = [.punct .leftBrace] :=
  IsSign.tokens ⟨rfl, rfl⟩

@[simp] theorem tokens_tight_rightBrace : (Piece.tight "\x7d").tokens = [.punct .rightBrace] :=
  IsSign.tokens ⟨rfl, rfl⟩

end Piece

/-! ### What is written -/

namespace LoopStart

/-- The first part of a loop head has a text of its own. -/
def Written (D : List String → Declaration → Prop) (S : List String) : LoopStart → Prop
  | .absent | .empty _ => True
  | .expr _ e => e.Written S
  | .decl _ d => D S d

end LoopStart

namespace Stmt

variable (D : List String → Declaration → Prop)

mutual

/-- The statement has a text of its own where the structures `S` are known; `D` says which declarations
have one. -/
def Written (S : List String) : Stmt → Prop
  | .expr _ e => e.Written S
  | .decl _ d => D S d
  | .block _ body => WrittenAll S body
  | .ifThen _ condition thenBranch => condition.Written S ∧ Written S thenBranch
  | .ifElse _ condition thenBranch elseBranch =>
    condition.Written S ∧ Written S thenBranch ∧ Written (thenBranch.defined ++ S) elseBranch
  | .forLoop _ start condition step body =>
    start.Written D S ∧ (∀ e ∈ condition, e.Written (start.defined ++ S)) ∧
      (∀ e ∈ step, e.Written (start.defined ++ S)) ∧ Written (start.defined ++ S) body
  | .whileLoop _ condition body => condition.Written S ∧ Written S body
  | .doWhile _ body condition => Written S body ∧ condition.Written (body.defined ++ S)
  | .switch _ selector _ body => selector.Written S ∧ WrittenAll S body
  | .label _ value | .result _ value => ∀ e ∈ value, e.Written S
  | .jump .. | .empty _ => True

/-- The statements have a text of their own, each with the structures of those before it known. -/
def WrittenAll (S : List String) : List Stmt → Prop
  | [] => True
  | s :: ss => Written S s ∧ WrittenAll (s.defined ++ S) ss

end

/-- The tokens of a statement. -/
def tokens (s : Stmt) : List Token := Piece.tokensOf s.pieces

end Stmt

/-! ### Expressions inside statements -/

namespace Expr

variable {S : List String} {β : Type} {x : View} {R : β → Prop} {rest ts : List Token}

theorem Written.reads_bind {e : Expr} (h : e.Written S) {t : Token} (ht : t.reach = 0)
    {f : Expr → Parse β} (hf : ∀ e', e'.bare = e.bare → Reads (f e') ⟨t :: rest, S⟩ x R) :
    Reads (get >>= fun c : Cursor => expression c.fuel >>= f)
      ⟨e.tokens Level.sequence ++ t :: rest, S⟩ x R := by
  refine reads_get_bind fun c hc => (h.parsed.readable.expression.reads ?_ ht).bind hf
  have hlength := Cursor.length_rest_of_view hc
  simp only [Cursor.fuel, hlength, List.length_append, List.length_cons]
  omega

theorem Written.reads_parenthesized {e : Expr} (h : e.Written S) (opening closing : Expected) :
    Reads (parenthesized opening closing)
      ⟨.punct .leftParen :: (e.tokens Level.sequence ++ .punct .rightParen :: rest), S⟩ ⟨rest, S⟩
      fun e' => e'.bare = e.bare := by
  refine (reads_expect .leftParen opening).bind fun _ _ => ?_
  refine h.reads_bind rfl fun e' he' => ?_
  exact (reads_expect .rightParen closing).bind fun _ _ => .pure he'

/-- An expression starts with no word of the language and no sign that closes or divides. -/
theorem Opening.exists_head (h : Opening S ts) :
    ∃ t rest, ts = t :: rest ∧ (∀ k, t ≠ .keyword k) ∧ t ≠ .endOfText ∧
      ∀ sign, sign ≠ .leftParen → UnaryOp.leading? sign = none → t ≠ .punct sign := by
  cases h with
  | @operand t ts h =>
    refine ⟨t, ts, rfl, ?_, ?_, ?_⟩
    · rintro k rfl
      cases h
    · rintro rfl
      cases h
    · rintro sign hparen hsign rfl
      rcases h with h | h
      · exact hparen h
      · rw [hsign] at h
        cases h
  | construct ts h =>
    have hword {t : Token} {ty : Ty} (h : NamesType S [t] ty) : (∀ k, t ≠ .keyword k) ∧ t ≠ .endOfText ∧
        ∀ sign, sign ≠ .leftParen → UnaryOp.leading? sign = none → t ≠ .punct sign := by
      cases h <;> exact ⟨fun _ => Token.noConfusion, Token.noConfusion, fun _ _ _ => Token.noConfusion⟩
    cases h with
    | word => exact ⟨_, _, rfl, hword (.word _)⟩
    | struct hname => exact ⟨_, _, rfl, hword (.struct hname)⟩
    | array hty size => exact ⟨_, _, rfl, hword hty⟩

/-- The tokens of an expression that may be missing. -/
def optionTokens (e : Option Expr) : List Token := (e.map (tokens Level.sequence)).getD []

theorem reads_exprUnless {e : Option Expr} (h : ∀ x ∈ e, x.Written S) {sign : Punct}
    (hreach : Token.reach (.punct sign) = 0) (hsign : UnaryOp.leading? sign = none) :
    Reads (exprUnless sign) ⟨optionTokens e ++ .punct sign :: rest, S⟩ ⟨.punct sign :: rest, S⟩
      fun e' => e'.map bare = e.map bare := by
  have hparen : sign ≠ .leftParen := by
    rintro rfl
    cases hreach
  unfold exprUnless
  cases e with
  | none =>
    refine reads_check_bind ?_
    rw [if_pos (by simp)]
    exact .pure rfl
  | some e =>
    have he := h e rfl
    obtain ⟨t, ts, htokens, -, -, hne⟩ := he.parsed.opening.exists_head
    have hreads : Reads (do some <$> expression (← get).fuel)
        ⟨e.tokens Level.sequence ++ .punct sign :: rest, S⟩ ⟨.punct sign :: rest, S⟩
        fun e' => e'.map bare = some e.bare := by
      refine reads_get_bind fun c hc => (he.parsed.readable.expression.reads ?_ hreach).map ?_
      · have hlength := Cursor.length_rest_of_view hc
        simp only [Cursor.fuel, hlength, List.length_append, List.length_cons]
        omega
      · exact fun e' he' => congrArg some he'
    have htokens' : optionTokens (some e) = t :: ts := htokens
    rw [htokens']
    rw [htokens] at hreads
    refine reads_check_bind ?_
    rw [if_neg (by simpa using hne sign hparen hsign)]
    exact hreads

theorem namedAfterBracket_length {ls : List Lexeme} {size : UInt32}
    (h : ls.map (·.token) = .int size :: .punct .rightBracket :: .punct .leftParen :: ts) :
    Cursor.namedAfterBracket ls = false := by
  obtain ⟨⟨_, _⟩, ls₁, rfl, rfl, h₁⟩ := List.map_eq_cons_iff.mp h
  obtain ⟨⟨_, _⟩, ls₂, rfl, rfl, h₂⟩ := List.map_eq_cons_iff.mp h₁
  obtain ⟨⟨_, _⟩, ls₃, rfl, rfl, -⟩ := List.map_eq_cons_iff.mp h₂
  rfl

/-- An expression is not taken for a declaration. -/
theorem Opening.not_atDeclaration (h : Opening S ts) {c : Cursor}
    (hc : c.view = ⟨ts ++ rest, S⟩) : c.atDeclaration = false := by
  cases h with
  | @operand t ts h =>
    have hpeek := Cursor.peek_of_view hc
    have htype : c.atType = false := by
      unfold Cursor.atType
      rw [hpeek]
      cases t with
      | identifier name =>
        have hname : name ∉ S := h
        simpa [Cursor.structs_of_view hc] using hname
      | typeName ty => cases h
      | _ => rfl
    unfold Cursor.atDeclaration
    rw [hpeek, htype, Bool.false_and, Bool.or_false]
    cases t with
    | keyword k | precision p => cases h
    | _ => rfl
  | @construct us ty ts h =>
    have hpeek {t : Token} {us : List Token} (hus : c.view = ⟨t :: us, S⟩) (ht : NamesType S [t] ty) :
        (c.peek.token.isQualifier || c.peek.token == .keyword .struct) = false := by
      rw [Cursor.peek_of_view hus]
      cases ht <;> rfl
    unfold Cursor.atDeclaration
    rw [Cursor.ahead?_of_view hc]
    cases h with
    | word ty =>
      rw [hpeek hc (.word ty)]
      exact Bool.and_false _
    | struct hname =>
      rw [hpeek hc (.struct hname)]
      exact Bool.and_false _
    | @array t word hword size =>
      have hdrop : (c.rest.drop 2).map (·.token) =
          .int size :: .punct .rightBracket :: .punct .leftParen :: (ts ++ rest) := by
        have hmap : c.rest.map (·.token) = _ := congrArg View.tokens hc
        rw [List.map_drop, hmap]
        rfl
      have hfirst : (c.peek.token.isQualifier || c.peek.token == .keyword .struct) = false := by
        rw [Cursor.peek_of_view hc]
        cases hword <;> rfl
      rw [hfirst]
      show (c.atType && Cursor.namedAfterBracket (c.rest.drop 2)) = false
      rw [namedAfterBracket_length hdrop, Bool.and_false]

end Expr

/-! ### Reading -/

namespace Stmt

variable {F : Nat} {ss body : List Stmt} {rest : List Token} {value : Option Expr} {start : LoopStart}

open GlslEs.Expr (optionTokens)

/-- A token that a statement may start with. -/
def Starts (t : Token) : Prop := t ≠ .keyword .else_ ∧ t ≠ .punct .rightBrace ∧ t ≠ .endOfText

/-- The tokens of a statement are read as the statement with the braces that writing adds.  In front of
`else` it must not end in an `if` without one. -/
structure Parsed (S : List String) (s : Stmt) : Prop where
  starts : ∃ t ts, s.tokens = t :: ts ∧ Starts t
  reads : ∀ {F : Nat} {t : Token} {rest : List Token}, 4 * s.tokens.length ≤ F →
    (s.endsWithOpenIf = true → t ≠ .keyword .else_) →
    Reads (statement F) ⟨s.tokens ++ t :: rest, S⟩ ⟨t :: rest, s.defined ++ S⟩
      fun s' => s'.bare = s.guarded.bare

variable {S : List String}

/-- An expression in front of a semicolon, with what becomes of a declaration or an expression. -/
theorem reads_plain {α : Type} (declared : Declaration → α) (keep : Expr → α) (what : Expected)
    (rest : List Token) {e : Expr} (h : e.Written S) :
    Reads (do
        if (← get).atDeclaration then
          return declared (← localDeclaration)
        else
          let e ← expression (← get).fuel
          let _ ← expect .semicolon what
          return keep e)
      ⟨e.tokens Level.sequence ++ .punct .semicolon :: rest, S⟩ ⟨rest, S⟩
      fun a => ∃ e', a = keep e' ∧ e'.bare = e.bare := by
  refine reads_get_bind fun c hc => ?_
  rw [h.parsed.opening.not_atDeclaration hc]
  refine h.reads_bind rfl fun e' he' => ?_
  exact (reads_expect .semicolon what).bind fun _ _ => .pure ⟨e', rfl, he'⟩

/-- An expression in front of a semicolon. -/
theorem parsed_expr (loc : Location) {e : Expr} (h : e.Written S) : Parsed S (.expr loc e) := by
  have htokens : (Stmt.expr loc e).tokens = e.tokens Level.sequence ++ [.punct .semicolon] := by
    simp [tokens, pieces, Expr.tokens]
  obtain ⟨t, ts, hts, hkeyword, hend, hsign⟩ := h.parsed.opening.exists_head
  refine ⟨⟨t, ts ++ [.punct .semicolon], ?_, hkeyword _, hsign _ (by decide) rfl, hend⟩,
    fun {F u rest} hF _ => ?_⟩
  · rw [htokens, hts]
    rfl
  · rw [htokens, List.length_append, List.length_singleton] at hF
    obtain ⟨F, rfl⟩ : ∃ G, F = G + 1 := ⟨F - 1, by omega⟩
    have hplain (loc' : Location) := (reads_plain (Stmt.decl loc') (Stmt.expr loc') .expressionEnd
      (u :: rest) h).mono (Q := fun s' => s'.bare = (Stmt.expr loc e).guarded.bare) (by
        rintro _ ⟨e', rfl, he'⟩
        simp only [guarded, bare, he'])
    rw [htokens, List.append_assoc]
    rw [hts] at hplain ⊢
    rw [statement]
    refine reads_here_bind fun loc => reads_token_bind ?_
    split
    case h_1 => exact absurd rfl (hsign _ (by decide) rfl)
    case h_2 => exact absurd rfl (hsign _ (by decide) rfl)
    case h_15 => exact hplain loc
    all_goals exact absurd rfl (hkeyword _)

/-! ### Blocks -/

/-- Statements one after the other are read, each with the structures of those before it known. -/
inductive ParsedAll : List String → List Stmt → Prop
  | nil (S : List String) : ParsedAll S []
  | cons {S : List String} {s : Stmt} {ss : List Stmt} (h : Parsed S s)
      (hss : ParsedAll (s.defined ++ S) ss) : ParsedAll S (s :: ss)

/-- The tokens of statements one after the other. -/
def listTokens (ss : List Stmt) : List Token := Piece.tokensOf (listPieces ss)

theorem listTokens_cons (s : Stmt) (ss : List Stmt) : listTokens (s :: ss) = s.tokens ++ listTokens ss := by
  simp [listTokens, listPieces, tokens]

theorem tokens_braced (ss : List Stmt) :
    Piece.tokensOf (braced (listPieces ss)) = .punct .leftBrace :: (listTokens ss ++ [.punct .rightBrace]) := by
  simp [braced, Piece.openBrace, Piece.closeBrace, listTokens]

/-- Statements up to a closing brace. -/
theorem ParsedAll.reads_statements (h : ParsedAll S ss) (hF : 4 * (listTokens ss).length + 1 ≤ F) :
    Reads (statements F) ⟨listTokens ss ++ .punct .rightBrace :: rest, S⟩ ⟨rest, definedAll ss ++ S⟩
      fun ss' => bareAll ss' = bareAll (guardedAll ss) := by
  induction h generalizing F with
  | nil S =>
    obtain ⟨F, rfl⟩ : ∃ G, F = G + 1 := ⟨F - 1, by omega⟩
    rw [statements]
    refine (reads_accept .rightBrace).bind ?_
    rintro _ rfl
    exact .pure rfl
  | @cons S s ss hs hss ih =>
    obtain ⟨t, ts, hts, -, hbrace, hend⟩ := hs.starts
    have hpos : 0 < s.tokens.length := by simp [hts]
    rw [listTokens_cons, List.length_append] at hF
    obtain ⟨F, rfl⟩ : ∃ G, F = G + 1 := ⟨F - 1, by omega⟩
    -- What follows the statement is the next one or the brace, and neither is an `else`.
    obtain ⟨u, us, hus, hu⟩ : ∃ u us, listTokens ss ++ .punct .rightBrace :: rest = u :: us ∧
        u ≠ .keyword .else_ := by
      cases hss with
      | nil => exact ⟨_, _, rfl, Token.noConfusion⟩
      | @cons _ s' ss' hs' =>
        obtain ⟨u, us, hus, helse, -⟩ := hs'.starts
        exact ⟨u, us ++ listTokens ss' ++ .punct .rightBrace :: rest,
          by rw [listTokens_cons, hus]; simp, helse⟩
    have hread : Reads (statement F) ⟨s.tokens ++ u :: us, S⟩ ⟨u :: us, s.defined ++ S⟩
        fun s' => s'.bare = s.guarded.bare := hs.reads (by omega) fun _ => hu
    have htail := ih (F := F) (by omega)
    rw [hus] at htail
    rw [listTokens_cons, List.append_assoc, hus]
    rw [hts, List.cons_append] at hread ⊢
    rw [statements]
    refine (reads_accept_of_ne hbrace).bind ?_
    rintro _ rfl
    refine reads_token_bind ?_
    dsimp only
    rw [if_neg (by simpa using hend)]
    refine hread.bind fun s' hs' => ?_
    rw [definedAll, List.append_assoc]
    exact htail.bind fun ss' hss' => .pure (by rw [bareAll, guardedAll, bareAll, hs', hss'])

theorem ParsedAll.reads_block (h : ParsedAll S ss) (hF : 4 * (listTokens ss).length + 2 ≤ F) :
    Reads (Parse.block F) ⟨.punct .leftBrace :: (listTokens ss ++ .punct .rightBrace :: rest), S⟩
      ⟨rest, definedAll ss ++ S⟩ fun r => bareAll r.2 = bareAll (guardedAll ss) := by
  obtain ⟨F, rfl⟩ : ∃ G, F = G + 1 := ⟨F - 1, by omega⟩
  rw [Parse.block]
  refine (reads_expect .leftBrace .bodyOpen).bind fun loc _ => ?_
  exact (h.reads_statements (by omega)).bind fun ss' hss' => .pure hss'

theorem ParsedAll.reads_statement (h : ParsedAll S ss) (hF : 4 * (listTokens ss).length + 3 ≤ F) :
    Reads (statement F) ⟨.punct .leftBrace :: (listTokens ss ++ .punct .rightBrace :: rest), S⟩
      ⟨rest, definedAll ss ++ S⟩ fun s' => s'.bare = .block .none (bareAll (guardedAll ss)) := by
  obtain ⟨F, rfl⟩ : ∃ G, F = G + 1 := ⟨F - 1, by omega⟩
  rw [statement]
  refine reads_here_bind fun loc => reads_token_bind ?_
  refine (h.reads_block (by omega)).bind ?_
  rintro ⟨_, body⟩ hbody
  exact .pure (by rw [bare, hbody])

/-! ### One statement -/

theorem tokens_innerPieces (s : Stmt) (ps : List Piece) :
    Piece.tokensOf (innerPieces s ps) = Piece.tokensOf ps := by
  unfold innerPieces
  split <;> simp

theorem tokens_headPieces (word : String) (k : Keyword) (h : word = k.text) (e : Expr) :
    Piece.tokensOf (headPieces word e) =
      .keyword k :: .punct .leftParen :: (e.tokens Level.sequence ++ [.punct .rightParen]) := by
  have hword : (Piece.word word).tokens = [.keyword k] := Piece.tokens_keyword (h ▸ rfl)
  simp [headPieces, hword, Expr.tokens]

theorem tokens_afterBody (isBlock : Bool) : (afterBody isBlock).tokens = [] := by
  cases isBlock <;> rfl

variable {loc : Location} {condition : Expr} {s : Stmt}

theorem parsed_block (h : ParsedAll S body) : Parsed S (.block loc body) := by
  have htokens : (Stmt.block loc body).tokens =
      .punct .leftBrace :: (listTokens body ++ [.punct .rightBrace]) := tokens_braced body
  refine ⟨⟨_, _, htokens, by simp [Starts]⟩, fun {F t rest} hF _ => ?_⟩
  rw [htokens] at hF ⊢
  simp only [List.length_cons, List.length_append, List.length_nil] at hF
  rw [List.cons_append, List.append_assoc]
  exact h.reads_statement (by omega)

/-- Behind a word of the language that tells a statement, the rest of it is read. -/
theorem parsed_of_keyword {k : Keyword} {ts : List Token} {f : Nat → Location → Token → Parse Stmt}
    {g : Nat → Location → Parse Stmt} (htokens : s.tokens = .keyword k :: ts) (hk : k ≠ .else_)
    (hstatement : ∀ F, statement (F + 1) = here >>= fun loc => token >>= f F loc)
    (hf : ∀ F loc, f F loc (.keyword k) = advance >>= fun _ => g F loc)
    (h : ∀ {F : Nat} {t : Token} {rest : List Token} (loc : Location), 4 * ts.length + 3 ≤ F →
      (s.endsWithOpenIf = true → t ≠ .keyword .else_) →
      Reads (g F loc) ⟨ts ++ t :: rest, S⟩ ⟨t :: rest, s.defined ++ S⟩ fun s' => s'.bare = s.guarded.bare) :
    Parsed S s := by
  have hstarts : Starts (.keyword k) :=
    ⟨fun heq => hk (Token.keyword.inj heq), Token.noConfusion, Token.noConfusion⟩
  refine ⟨⟨_, _, htokens, hstarts⟩, fun {F t rest} hF ht => ?_⟩
  rw [htokens] at hF ⊢
  rw [List.length_cons] at hF
  obtain ⟨F, rfl⟩ : ∃ G, F = G + 1 := ⟨F - 1, by omega⟩
  rw [hstatement]
  refine reads_here_bind fun loc => reads_token_bind ?_
  rw [hf]
  exact (reads_advance Token.noConfusion).bind fun _ _ => h loc (by omega) ht

theorem parsed_ifThen (hcondition : condition.Written S) (h : Parsed S s) :
    Parsed S (.ifThen loc condition s) := by
  have htokens : (Stmt.ifThen loc condition s).tokens =
      .keyword .if_ :: .punct .leftParen ::
        (condition.tokens Level.sequence ++ .punct .rightParen :: s.tokens) := by
    simp [tokens, pieces, tokens_headPieces "if" .if_ rfl, tokens_innerPieces]
  refine parsed_of_keyword htokens (by decide) (fun _ => rfl) (fun _ _ => rfl) fun {F t rest} loc' hF ht => ?_
  have helse : t ≠ .keyword .else_ := ht rfl
  simp only [List.length_cons, List.length_append, List.cons_append, List.append_assoc] at hF ⊢
  refine (hcondition.reads_parenthesized .ifOpen .ifClose).bind fun condition' hcondition' => ?_
  refine (h.reads (by omega) fun _ => helse).bind fun s' hs' => ?_
  refine (reads_acceptToken_of_ne helse).bind ?_
  rintro _ rfl
  exact .pure (by rw [bare, guarded, bare, hcondition', hs'])

/-- The tokens of a branch in front of `else`. -/
def guardedTokens (s : Stmt) : List Token :=
  if s.endsWithOpenIf then .punct .leftBrace :: (s.tokens ++ [.punct .rightBrace]) else s.tokens

/-- **In front of `else`, a branch that ends in an `if` without one is set in braces.** -/
theorem Parsed.reads_guarded (h : Parsed S s) (hF : 4 * (guardedTokens s).length ≤ F) :
    Reads (statement F) ⟨guardedTokens s ++ .keyword .else_ :: rest, S⟩
      ⟨.keyword .else_ :: rest, s.defined ++ S⟩
      fun s' => s'.bare =
        (if s.endsWithOpenIf then Stmt.block .none [s.guarded] else s.guarded).bare := by
  unfold guardedTokens at hF ⊢
  split at hF
  case isTrue hopen =>
    have hall : ParsedAll S [s] := .cons h (.nil _)
    have hlist : listTokens [s] = s.tokens := by simp [listTokens, listPieces, tokens]
    have hdefined : definedAll [s] ++ S = s.defined ++ S := by simp [definedAll]
    simp only [List.length_cons, List.length_append, List.length_nil] at hF
    rw [if_pos hopen, if_pos hopen, List.cons_append, List.append_assoc, ← hlist, ← hdefined]
    exact hall.reads_statement (by rw [hlist]; omega)
  case isFalse hclosed =>
    rw [if_neg hclosed, if_neg hclosed]
    exact h.reads hF fun hopen => absurd hopen hclosed

theorem parsed_ifElse {elseBranch : Stmt} (hcondition : condition.Written S) (h : Parsed S s)
    (helse : Parsed (s.defined ++ S) elseBranch) : Parsed S (.ifElse loc condition s elseBranch) := by
  have hbranch : Piece.tokensOf (if s.endsWithOpenIf then braced (.line :: s.pieces)
      else innerPieces s s.pieces) = guardedTokens s := by
    unfold guardedTokens
    split
    · simp [braced, Piece.openBrace, Piece.closeBrace, tokens]
    · exact tokens_innerPieces s s.pieces
  have hlast : Piece.tokensOf (if elseBranch.isIf then .space :: elseBranch.pieces
      else innerPieces elseBranch elseBranch.pieces) = elseBranch.tokens := by
    split
    · simp [tokens]
    · exact tokens_innerPieces elseBranch elseBranch.pieces
  have htokens : (Stmt.ifElse loc condition s elseBranch).tokens =
      .keyword .if_ :: .punct .leftParen :: (condition.tokens Level.sequence ++
        .punct .rightParen :: (guardedTokens s ++ .keyword .else_ :: elseBranch.tokens)) := by
    have hword : (Piece.word "else").tokens = [.keyword .else_] := Piece.tokens_keyword rfl
    simp [tokens, pieces, tokens_headPieces "if" .if_ rfl, hbranch, hlast, hword, tokens_afterBody]
  refine parsed_of_keyword htokens (by decide) (fun _ => rfl) (fun _ _ => rfl) fun {F t rest} loc' hF ht => ?_
  simp only [List.length_cons, List.length_append, List.cons_append, List.append_assoc] at hF ⊢
  refine (hcondition.reads_parenthesized .ifOpen .ifClose).bind fun condition' hcondition' => ?_
  refine (h.reads_guarded (by omega)).bind fun s' hs' => ?_
  refine (reads_acceptToken Token.noConfusion).bind ?_
  rintro _ rfl
  rw [if_pos rfl, defined, List.append_assoc]
  refine (helse.reads (by omega) ht).bind fun elseBranch' helse' => .pure ?_
  rw [bare, guarded, bare, hcondition', hs', helse']

theorem parsed_whileLoop (hcondition : condition.Written S) (h : Parsed S s) :
    Parsed S (.whileLoop loc condition s) := by
  have htokens : (Stmt.whileLoop loc condition s).tokens =
      .keyword .while_ :: .punct .leftParen ::
        (condition.tokens Level.sequence ++ .punct .rightParen :: s.tokens) := by
    simp [tokens, pieces, tokens_headPieces "while" .while_ rfl, tokens_innerPieces]
  refine parsed_of_keyword htokens (by decide) (fun _ => rfl) (fun _ _ => rfl) fun {F t rest} loc' hF ht => ?_
  simp only [List.length_cons, List.length_append, List.cons_append, List.append_assoc] at hF ⊢
  refine (hcondition.reads_parenthesized .whileOpen .whileClose).bind fun condition' hcondition' => ?_
  exact (h.reads (by omega) ht).bind fun s' hs' => .pure (by rw [bare, guarded, bare, hcondition', hs'])

theorem parsed_doWhile (h : Parsed S s) (hcondition : condition.Written (s.defined ++ S)) :
    Parsed S (.doWhile loc s condition) := by
  have htokens : (Stmt.doWhile loc s condition).tokens =
      .keyword .do_ :: (s.tokens ++ .keyword .while_ :: .punct .leftParen ::
        (condition.tokens Level.sequence ++ [.punct .rightParen, .punct .semicolon])) := by
    have hword : (Piece.word "do").tokens = [.keyword .do_] := Piece.tokens_keyword rfl
    simp [tokens, pieces, tokens_headPieces "while" .while_ rfl, tokens_innerPieces, hword, tokens_afterBody]
  refine parsed_of_keyword htokens (by decide) (fun _ => rfl) (fun _ _ => rfl) fun {F t rest} loc' hF _ => ?_
  simp only [List.length_cons, List.length_append, List.cons_append, List.append_assoc] at hF ⊢
  refine (h.reads (by omega) fun _ => by decide).bind fun s' hs' => ?_
  refine (reads_expectToken Token.noConfusion .doWhile).bind fun _ _ => ?_
  refine (hcondition.reads_parenthesized .whileOpen .whileClose).bind fun condition' hcondition' => ?_
  refine (reads_expect .semicolon .doEnd).bind fun _ _ => .pure ?_
  rw [bare, guarded, bare, hcondition', hs']

theorem parsed_switch {bodyLoc : Location} (hselector : condition.Written S)
    (h : ParsedAll S body) : Parsed S (.switch loc condition bodyLoc body) := by
  have htokens : (Stmt.switch loc condition bodyLoc body).tokens =
      .keyword .switch :: .punct .leftParen :: (condition.tokens Level.sequence ++
        .punct .rightParen :: .punct .leftBrace :: (listTokens body ++ [.punct .rightBrace])) := by
    simp [tokens, pieces, tokens_headPieces "switch" .switch rfl, tokens_braced]
  refine parsed_of_keyword htokens (by decide) (fun _ => rfl) (fun _ _ => rfl) fun {F t rest} loc' hF _ => ?_
  simp only [List.length_cons, List.length_append, List.cons_append, List.append_assoc] at hF ⊢
  refine (hselector.reads_parenthesized .switchOpen .switchClose).bind fun selector' hselector' => ?_
  refine (h.reads_block (by omega)).bind ?_
  rintro ⟨_, body'⟩ hbody'
  exact .pure (by rw [bare, guarded, bare, hselector', hbody'])

theorem tokens_spacedPieces (e : Option Expr) :
    Piece.tokensOf (spacedPieces e) = optionTokens e := by
  cases e <;> simp [spacedPieces, optionTokens, Expr.tokens]

theorem parsed_label (h : ∀ e ∈ value, e.Written S) : Parsed S (.label loc value) := by
  cases value with
  | none =>
    have htokens : (Stmt.label loc none).tokens = [.keyword .default, .punct .colon] := by
      have hword : (Piece.word "default").tokens = [.keyword .default] := Piece.tokens_keyword rfl
      simp [tokens, pieces, hword]
    refine parsed_of_keyword htokens (by decide) (fun _ => rfl) (fun _ _ => rfl) fun _ _ _ => ?_
    exact (reads_expect .colon .defaultColon).bind fun _ _ => .pure rfl
  | some e =>
    have he := h e rfl
    have htokens : (Stmt.label loc (some e)).tokens =
        .keyword .case_ :: (e.tokens Level.sequence ++ [.punct .colon]) := by
      have hword : (Piece.word "case").tokens = [.keyword .case_] := Piece.tokens_keyword rfl
      simp [tokens, pieces, hword, Expr.tokens]
    refine parsed_of_keyword htokens (by decide) (fun _ => rfl) (fun _ _ => rfl) fun _ _ _ => ?_
    rw [List.append_assoc]
    refine he.reads_bind rfl fun e' he' => ?_
    exact (reads_expect .colon .caseColon).bind fun _ _ => .pure (by simp [bare, guarded, he'])

theorem parsed_result (h : ∀ e ∈ value, e.Written S) : Parsed S (.result loc value) := by
  have htokens : (Stmt.result loc value).tokens =
      .keyword .return_ :: (optionTokens value ++ [.punct .semicolon]) := by
    have hword : (Piece.word "return").tokens = [.keyword .return_] := Piece.tokens_keyword rfl
    simp [tokens, pieces, hword, tokens_spacedPieces]
  refine parsed_of_keyword htokens (by decide) (fun _ => rfl) (fun _ _ => rfl) fun _ _ _ => ?_
  rw [List.append_assoc]
  refine (Expr.reads_exprUnless h rfl rfl).bind fun value' hvalue' => ?_
  refine (reads_expect .semicolon .returnEnd).bind fun _ _ => .pure ?_
  simp [bare, guarded, hvalue']

/-- The word of a jump. -/
def jumpKeyword : Jump → Keyword
  | .breakOut => .break_
  | .continueOn => .continue_
  | .discard => .discard

theorem parsed_jump {kind : Jump} : Parsed S (.jump loc kind) := by
  have htokens : (Stmt.jump loc kind).tokens = [.keyword (jumpKeyword kind), .punct .semicolon] := by
    have hword : (Piece.word kind.word).tokens = [.keyword (jumpKeyword kind)] :=
      Piece.tokens_keyword (by cases kind <;> rfl)
    simp [tokens, pieces, hword]
  cases kind <;>
    refine parsed_of_keyword htokens (by decide) (fun _ => rfl) (fun _ _ => rfl) fun _ _ _ => ?_ <;>
    exact (reads_expect .semicolon .jumpEnd).bind fun _ _ => .pure rfl

theorem parsed_empty : Parsed S (.empty loc) := by
  have htokens : (Stmt.empty loc).tokens = [.punct .semicolon] := by simp [tokens, pieces]
  refine ⟨⟨_, _, htokens, by simp [Starts]⟩, fun {F t rest} hF _ => ?_⟩
  rw [htokens] at hF ⊢
  simp only [List.length_cons] at hF
  obtain ⟨F, rfl⟩ : ∃ G, F = G + 1 := ⟨F - 1, by omega⟩
  rw [statement]
  refine reads_here_bind fun loc' => reads_token_bind ?_
  exact (reads_advance Token.noConfusion).bind fun _ _ => .pure rfl

/-! ### Loop heads -/

/-- The first part of a loop head with its semicolon. -/
theorem reads_loopStart (h : start.Written (fun _ _ => False) S) :
    Reads loopStart ⟨Piece.tokensOf (startPieces start) ++ .punct .semicolon :: rest, S⟩
      ⟨rest, start.defined ++ S⟩ fun start' => start'.bare = start.guarded.bare := by
  unfold loopStart
  refine reads_here_bind fun loc => ?_
  cases start with
  | absent | empty =>
    refine (reads_accept .semicolon).bind ?_
    rintro _ rfl
    exact .pure rfl
  | expr loc' e =>
    have he : e.Written S := h
    obtain ⟨t, ts, hts, -, -, hsign⟩ := he.parsed.opening.exists_head
    have hplain := (reads_plain (LoopStart.decl loc) (LoopStart.expr loc) .forFirst rest he).mono
      (Q := fun start' => start'.bare = (LoopStart.expr loc' e).guarded.bare) (by
        rintro _ ⟨e', rfl, he'⟩
        simp only [LoopStart.guarded, LoopStart.bare, he'])
    have htokens : Piece.tokensOf (startPieces (.expr loc' e)) = t :: ts := hts
    rw [htokens]
    rw [hts] at hplain
    refine (reads_accept_of_ne (hsign _ (by decide) rfl)).bind ?_
    rintro _ rfl
    exact hplain
  | decl loc' d => exact h.elim

theorem parsed_forLoop {test step : Option Expr}
    (hstart : start.Written (fun _ _ => False) S) (htest : ∀ e ∈ test, e.Written (start.defined ++ S))
    (hstep : ∀ e ∈ step, e.Written (start.defined ++ S)) (h : Parsed (start.defined ++ S) s) :
    Parsed S (.forLoop loc start test step s) := by
  have htokens : (Stmt.forLoop loc start test step s).tokens =
      .keyword .for_ :: .punct .leftParen :: (Piece.tokensOf (startPieces start) ++
        .punct .semicolon :: (optionTokens test ++
          .punct .semicolon :: (optionTokens step ++ .punct .rightParen :: s.tokens))) := by
    have hword : (Piece.word "for").tokens = [.keyword .for_] := Piece.tokens_keyword rfl
    simp [tokens, pieces, tokens_innerPieces, tokens_spacedPieces, hword]
  refine parsed_of_keyword htokens (by decide) (fun _ => rfl) (fun _ _ => rfl) fun {F t rest} loc' hF ht => ?_
  simp only [List.length_cons, List.length_append, List.cons_append, List.append_assoc] at hF ⊢
  refine (reads_expect .leftParen .forOpen).bind fun _ _ => ?_
  refine (reads_loopStart hstart).bind fun start' hstart' => ?_
  refine (Expr.reads_exprUnless htest rfl rfl).bind fun test' htest' => ?_
  refine (reads_expect .semicolon .forSecond).bind fun _ _ => ?_
  refine (Expr.reads_exprUnless hstep rfl rfl).bind fun step' hstep' => ?_
  refine (reads_expect .rightParen .forClose).bind fun _ _ => ?_
  rw [defined, List.append_assoc]
  refine (h.reads (by omega) ht).bind fun s' hs' => .pure ?_
  rw [bare, guarded, bare, hstart', htest', hstep', hs']

/-! ### All statements -/

theorem parsedAll_of_forall (h : ∀ s ∈ ss, ∀ S, s.Written (fun _ _ => False) S → Parsed S s)
    (hss : WrittenAll (fun _ _ => False) S ss) : ParsedAll S ss := by
  induction ss generalizing S with
  | nil => exact .nil S
  | cons s ss ih =>
    exact .cons (h s List.mem_cons_self S hss.1) (ih (fun x hx => h x (List.mem_cons_of_mem s hx)) hss.2)

/-- **Every statement without declarations that is written is read.** -/
theorem Written.parsed (h : s.Written (fun _ _ => False) S) : Parsed S s := by
  induction s generalizing S with
  | expr loc e => exact parsed_expr loc h
  | decl loc d => exact h.elim
  | block loc body ih => exact parsed_block (parsedAll_of_forall (fun s hs S h => ih s hs h) h)
  | ifThen loc condition s ih => exact parsed_ifThen h.1 (ih h.2)
  | ifElse loc condition s t ihs iht => exact parsed_ifElse h.1 (ihs h.2.1) (iht h.2.2)
  | forLoop loc start test step body ih => exact parsed_forLoop h.1 h.2.1 h.2.2.1 (ih h.2.2.2)
  | whileLoop loc condition body ih => exact parsed_whileLoop h.1 (ih h.2)
  | doWhile loc body condition ih => exact parsed_doWhile (ih h.1) h.2
  | switch loc selector bodyLoc body ih =>
    exact parsed_switch h.1 (parsedAll_of_forall (fun s hs S h => ih s hs h) h.2)
  | label loc value => exact parsed_label h
  | result loc value => exact parsed_result h
  | jump loc kind => exact parsed_jump
  | empty loc => exact parsed_empty

end Stmt

end GlslEs
