import GlslEs.Proofs.Writing.Stmt

/-!
# The text of statements

A statement ends with a sign that no longer sign starts with, so whatever follows it is read apart; inside
a statement, words meet what they stand in front of and expressions meet signs.

* `Piece.Ends`: a piece that everything may follow.
* `Stmt.Holds.row`: **the pieces of a statement are apart** if those of its expressions and declarations are.
* `Stmt.exists_statement_text`: reading the text of a statement gives the statement back.
-/

namespace GlslEs

namespace Piece

variable {a : Piece} {strict : Bool} {k : Keyword}

open Lexer

/-! ### Where statements meet -/

/-- A piece that everything may follow. -/
structure Ends (a : Piece) : Prop where
  text : a.isText = true
  last : ∀ t ∈ a.tokens.getLast?, ∀ d, t.stops d = true

/-- The signs that no longer sign starts with. -/
def finals : List Punct := [.leftParen, .rightParen, .leftBrace, .rightBrace, .semicolon, .colon, .comma]

theorem stops_of_mem_finals {p : Punct} (h : p ∈ finals) (d : Char) : p.stops d = true := by
  simp only [finals, List.mem_cons, List.not_mem_nil, or_false] at h
  rcases h with rfl | rfl | rfl | rfl | rfl | rfl | rfl <;> rfl

theorem IsSign.final {p : Punct} (h : IsSign a p) (hp : p ∈ finals) : Ends a where
  text := h.text
  last t ht d := by
    rw [h.tokens] at ht
    rw [← Option.mem_some_iff.mp ht]
    exact stops_of_mem_finals hp d

theorem Ends.apart {b : Piece} (ha : a.Ends) : Apart a b :=
  fun t ht d _ => .inr (ha.last t ht d)

/-- A piece that a statement may start with. -/
structure Begins (b : Piece) : Prop where
  text : b.isText = true
  head : (b.isTight = false ∧ ∀ d ∈ b.text.head?, Text.isNameChar d = true ∨ d ∈ openers) ∨
    ∀ d ∈ b.text.head?, d = '\x7b' ∨ d = ';' ∨ d = '<'

theorem Opens.begins {b : Piece} (h : b.Opens) : b.Begins := ⟨h.text, .inl ⟨h.loose, h.head⟩⟩

/-- Rows that everything may follow, one behind the other. -/
theorem row_flatMap {α : Type} {f : α → List Piece} {xs : List α}
    (h : ∀ x ∈ xs, Row strict Begins Ends (f x)) :
    xs.flatMap f = [] ∨ Row strict Begins Ends (xs.flatMap f) := by
  induction xs with
  | nil => exact .inl rfl
  | cons x xs ih =>
    rw [List.forall_mem_cons] at h
    rw [List.flatMap_cons]
    rcases ih h.2 with hnil | hxs
    · rw [hnil, List.append_nil]
      exact .inr h.1
    · exact .inr (h.1.join hxs fun ha _ => ha.apart)

/-- A piece with a word of the language. -/
structure IsKeyword (k : Keyword) (a : Piece) : Prop where
  text : a.isText = true
  spelling : a.text = k.text.toList

theorem IsKeyword.closes (h : IsKeyword k a) : Closes a :=
  Expr.closes_of_lexesAs h.text (h.spelling ▸ spellsAll_keyword k) rfl
    (Expr.stops_follower fun _ => Token.noConfusion)

theorem isWordChar_of_isNameChar {c : Char} (h : Text.isNameChar c = true) : isWordChar c = true := by
  simp only [Text.isNameChar, Text.isLetter, isWordChar, Char.isAlphanum, Bool.or_eq_true] at h ⊢
  tauto

/-- A word and what stands behind it are read apart. -/
theorem apart_of_wordlike {b : Piece} {word : String} (h : Wordlike strict word)
    (ha : a.text = word.toList) (hb : b.Begins) : Apart a b := by
  intro t ht d hd
  obtain ⟨u, hu, hstops⟩ := endsLikeWord_wordReading word
  rw [tokens, reading_eq (ha ▸ lexesAs_word h), hu] at ht
  obtain rfl : u = t := Option.mem_some_iff.mp ht
  rcases hb.head with ⟨hloose, hhead⟩ | hhead
  · rcases hhead d hd with hname | hopener
    · refine .inl ⟨hloose, fun l hl => ?_⟩
      have hlast : isWordChar l = true :=
        isWordChar_of_isNameChar (h.forall_isNameChar l (List.mem_of_getLast? (ha ▸ hl)))
      simp [glues, hlast, isWordChar_of_isNameChar hname]
    · have hall : ∀ d ∈ openers, (!Text.isNameChar d) = true := List.all_eq_true.mp rfl
      exact .inr (hstops d (hall d hopener))
  · rcases hhead d hd with rfl | rfl | rfl <;> exact .inr (hstops _ rfl)

theorem IsKeyword.apart {b : Piece} (ha : IsKeyword k a) (hb : b.Begins) : Apart a b :=
  apart_of_wordlike (k.wordlike : Wordlike true k.text) ha.spelling hb

namespace Row

variable {strict : Bool} {P Q : Piece → Prop} {ps qs : List Piece} {a : Piece}

theorem append_gap (h : Row strict P Q ps) (ha : a.isText = false) : Row strict P Q (ps ++ [a]) := by
  obtain ⟨b, hb, hPb⟩ := h.first
  obtain ⟨z, hz, hQz⟩ := h.last
  have hfirst : firstText? [a] = none := by rw [firstText?, List.filter_cons_of_neg (by simp [ha])]; rfl
  have hlast : lastText? [a] = none := by rw [lastText?, List.filter_cons_of_neg (by simp [ha])]; rfl
  refine ⟨h.legible.append (legible_nil.cons_gap ha) ?_, ⟨b, ?_, hPb⟩, ⟨z, ?_, hQz⟩⟩
  · rw [hfirst]
    rintro _ _ _ ⟨⟩
  · rw [firstText?_append, hb]
    rfl
  · rw [lastText?_append, hlast, hz]
    rfl

/-- What may be missing stands in front of a sign. -/
theorem append_option (h : Row strict P Ends ps) (hq : qs = [] ∨ Row strict Begins Closes qs) {p : Punct}
    (ha : IsSign a p) (hp : p ∈ finals) (hfollows : a.Follows) : Row strict P Ends (ps ++ (qs ++ [a])) := by
  have hsign : Row strict Follows Ends [a] := .singleton ha.valid ha.text hfollows (ha.final hp)
  rcases hq with rfl | hq
  · exact h.join hsign fun ha _ => ha.apart
  · exact h.join (hq.append hsign) fun ha _ => ha.apart

end Row

end Piece

/-! ### One statement -/

namespace Stmt

variable {ps : List Piece} {start : LoopStart} {value : Option Expr}

open Piece (Row Begins Ends Opens Closes Follows IsSign IsKeyword Operand)

variable {strict : Bool}

theorem row_keyword (k : Keyword) {a : Piece} (ha : a = .word k.text) : Row strict Begins (IsKeyword k) [a] := by
  subst ha
  refine .singleton (Piece.valid_of_lexesAs (Lexer.spellsAll_keyword k) fun _ => rfl) rfl ⟨rfl, .inl ⟨rfl, fun d hd => .inl ?_⟩⟩ ⟨rfl, rfl⟩
  have hword : Lexer.Wordlike true k.text := k.wordlike
  exact hword.forall_isNameChar d (List.mem_of_mem_head? hd)

theorem row_sign {a : Piece} {p : Punct} (ha : IsSign a p) (hp : p ∈ Piece.finals)
    (hfollows : Expr.followsOperand p = true) : Row strict Follows Ends [a] :=
  .singleton ha.valid ha.text (Expr.follows_of_sign ha hfollows) (ha.final hp)

theorem row_semicolon : Row strict Follows Ends [.tight ";"] :=
  row_sign (p := .semicolon) ⟨rfl, rfl⟩ (by decide) rfl

theorem row_colon : Row strict Follows Ends [.tight ":"] :=
  row_sign (p := .colon) ⟨rfl, rfl⟩ (by decide) rfl

theorem row_rightParen : Row strict Follows Ends [.tight ")"] :=
  row_sign (p := .rightParen) ⟨rfl, rfl⟩ (by decide) rfl

theorem row_headPieces (k : Keyword) {word : String} (hword : word = k.text) {e : Expr}
    (h : e.Laid strict) : Row strict Begins Ends (headPieces word e) := by
  have hhead : Row strict Begins Closes [.word word] := (row_keyword k (by rw [hword])).mono id IsKeyword.closes
  have hsign : IsSign (.tight "(") .leftParen := ⟨rfl, rfl⟩
  have hparen : Row strict Follows Ends (.tight "(" :: (e.pieces Level.sequence ++ [.tight ")"])) :=
    Row.sign_cons (h.operand.append row_rightParen) hsign (by decide)
      (Expr.follows_of_sign hsign rfl)
  exact hhead.append (hparen.cons_gap (a := .space) rfl)

theorem row_innerPieces {s : Stmt} (h : Row strict Begins Ends ps) :
    Row strict Begins Ends (innerPieces s ps) := by
  unfold innerPieces
  split
  · exact h
  · exact ((h.cons_gap (a := .line) rfl).cons_gap (a := .indent) rfl).append_gap rfl

theorem row_braced (h : ps = [] ∨ Row strict Begins Ends ps) : Row strict Begins Ends (braced ps) := by
  have hopenSign : IsSign (.tight "\x7b") .leftBrace := ⟨rfl, rfl⟩
  have hcloseSign : IsSign (.tight "\x7d") .rightBrace := ⟨rfl, rfl⟩
  have hopen : Row strict Begins Ends [.space, .tight "\x7b", .indent] := by
    have hbrace : Row strict Begins Ends [.tight "\x7b"] := .singleton hopenSign.valid rfl
      ⟨rfl, .inr fun d hd => .inl (Option.mem_some_iff.mp hd).symm⟩ (hopenSign.final (by decide))
    exact (hbrace.append_gap (a := .indent) rfl).cons_gap (a := .space) rfl
  have hclose : Row strict (fun _ => True) Ends [.outdent, .line, .tight "\x7d"] :=
    ((Row.singleton hcloseSign.valid rfl trivial (hcloseSign.final (by decide))).cons_gap
      (a := .line) rfl).cons_gap (a := .outdent) rfl
  unfold braced Piece.openBrace Piece.closeBrace
  rcases h with rfl | h
  · exact (hopen.join hclose fun ha _ => ha.apart)
  · exact (hopen.join h fun ha _ => ha.apart).join hclose fun ha _ => ha.apart

theorem listPieces_eq_flatMap (ss : List Stmt) : listPieces ss = ss.flatMap fun s => .line :: s.pieces := by
  induction ss with
  | nil => rfl
  | cons s ss ih => rw [listPieces, ih, List.flatMap_cons]

theorem row_listPieces {ss : List Stmt} (h : ∀ s ∈ ss, Row strict Begins Ends s.pieces) :
    listPieces ss = [] ∨ Row strict Begins Ends (listPieces ss) := by
  rw [listPieces_eq_flatMap]
  exact Piece.row_flatMap fun s hs => (h s hs).cons_gap rfl

theorem row_afterBody (isBlock : Bool) {P Q : Piece → Prop} (h : Row strict P Q ps) :
    Row strict P Q (afterBody isBlock :: ps) := by
  cases isBlock
  · exact h.cons_gap rfl
  · exact h.cons_gap rfl

theorem row_spacedPieces {e : Option Expr} (h : ∀ x ∈ e, x.Laid strict) :
    spacedPieces e = [] ∨ Row strict Opens Closes (spacedPieces e) := by
  cases e with
  | none => exact .inl rfl
  | some e => exact .inr ((h e rfl).operand.cons_gap rfl)

variable {loc : Location} {condition : Expr} {s : Stmt}

theorem row_expr {e : Expr} (h : e.Laid strict) : Row strict Begins Ends (Stmt.expr loc e).pieces :=
  (h.operand.append row_semicolon).mono Opens.begins id

theorem row_ifElse {elseBranch : Stmt} (hcondition : condition.Laid strict) (h : Row strict Begins Ends s.pieces)
    (helse : Row strict Begins Ends elseBranch.pieces) :
    Row strict Begins Ends (Stmt.ifElse loc condition s elseBranch).pieces := by
  have hbranch : Row strict Begins Ends (if s.endsWithOpenIf then braced (.line :: s.pieces)
      else innerPieces s s.pieces) := by
    split
    · exact row_braced (.inr (h.cons_gap rfl))
    · exact row_innerPieces h
  have hword : Row strict Begins (IsKeyword .else_)
      [afterBody (s.endsWithOpenIf || s.isBlock), .word "else"] := row_afterBody _ (row_keyword .else_ rfl)
  have hlast : Row strict Begins Ends (if elseBranch.isIf then .space :: elseBranch.pieces
      else innerPieces elseBranch elseBranch.pieces) := by
    split
    · exact helse.cons_gap rfl
    · exact row_innerPieces helse
  exact (((row_headPieces .if_ rfl hcondition).join hbranch fun ha _ => ha.apart).join hword
    fun ha _ => ha.apart).join hlast fun ha hb => ha.apart hb

theorem row_startPieces
    (h : start.Holds (Expr.Laid strict) fun d => Row strict Begins Closes d.pieces) :
    startPieces start = [] ∨ Row strict Begins Closes (startPieces start) := by
  cases h with
  | absent | empty => exact .inl rfl
  | expr he => exact .inr (he.operand.mono Opens.begins id)
  | decl hd => exact .inr hd

theorem row_forLoop {test step : Option Expr}
    (hstart : start.Holds (Expr.Laid strict) fun d => Row strict Begins Closes d.pieces)
    (htest : ∀ e ∈ test, e.Laid strict) (hstep : ∀ e ∈ step, e.Laid strict)
    (h : Row strict Begins Ends s.pieces) :
    Row strict Begins Ends (Stmt.forLoop loc start test step s).pieces := by
  have hparen : IsSign (.tight "(") .leftParen := ⟨rfl, rfl⟩
  have hsemicolon : IsSign (.tight ";") .semicolon := ⟨rfl, rfl⟩
  have hclose : IsSign (.tight ")") .rightParen := ⟨rfl, rfl⟩
  have hhead : Row strict Begins Ends [.word "for", .space, .tight "("] :=
    ((row_keyword .for_ rfl).mono id IsKeyword.closes).append
      ((row_sign hparen (by decide) rfl).cons_gap (a := .space) rfl)
  have hspaced {e : Option Expr} (he : ∀ x ∈ e, x.Laid strict) :
      spacedPieces e = [] ∨ Row strict Begins Closes (spacedPieces e) :=
    (row_spacedPieces he).imp_right fun hrow => hrow.mono Opens.begins id
  have hrow := (((hhead.append_option (row_startPieces hstart) hsemicolon (by decide)
    (Expr.follows_of_sign hsemicolon rfl)).append_option (hspaced htest) hsemicolon (by decide)
    (Expr.follows_of_sign hsemicolon rfl)).append_option (hspaced hstep) hclose (by decide)
    (Expr.follows_of_sign hclose rfl)).join (row_innerPieces (s := s) h) fun ha _ => ha.apart
  simpa only [pieces, List.append_assoc] using hrow

theorem row_doWhile (h : Row strict Begins Ends s.pieces) (hcondition : condition.Laid strict) :
    Row strict Begins Ends (Stmt.doWhile loc s condition).pieces := by
  have hbody : Row strict Begins Ends (.word "do" :: innerPieces s s.pieces) :=
    (row_keyword .do_ rfl).join (row_innerPieces h) fun ha hb => ha.apart hb
  have hhead : Row strict Begins Ends (afterBody s.isBlock :: headPieces "while" condition) :=
    row_afterBody _ (row_headPieces .while_ rfl hcondition)
  have hrow := (hbody.join hhead fun ha _ => ha.apart).join row_semicolon fun ha _ => ha.apart
  simpa only [pieces, List.append_assoc, List.cons_append] using hrow

theorem row_label (h : ∀ e ∈ value, e.Laid strict) :
    Row strict Begins Ends (Stmt.label loc value).pieces := by
  cases value with
  | none =>
    have hword : Row strict Begins (IsKeyword .default) [.word "default"] := row_keyword .default rfl
    rw [pieces]
    exact (hword.mono id IsKeyword.closes).append row_colon
  | some e =>
    have hword : Row strict Begins (IsKeyword .case_) [.word "case"] := row_keyword .case_ rfl
    have hvalue := ((h e rfl).operand.append row_colon).cons_gap (a := .space) rfl
    rw [pieces, List.append_assoc]
    exact hword.join hvalue fun ha hb => ha.apart hb.begins

theorem row_result (h : ∀ e ∈ value, e.Laid strict) :
    Row strict Begins Ends (Stmt.result loc value).pieces := by
  have hword : Row strict Begins (IsKeyword .return_) [.word "return"] := row_keyword .return_ rfl
  have hrow : Row strict Begins Ends ([.word "return"] ++ (spacedPieces value ++ [.tight ";"])) := by
    rcases row_spacedPieces h with hnone | hvalue
    · rw [hnone]
      exact (hword.mono id IsKeyword.closes).append row_semicolon
    · exact hword.join (hvalue.append row_semicolon) fun ha hb => ha.apart hb.begins
  rw [pieces]
  exact hrow

theorem row_jump {kind : Jump} : Row strict Begins Ends (Stmt.jump loc kind).pieces := by
  have hword : Row strict Begins (IsKeyword (jumpKeyword kind)) [.word kind.word] :=
    row_keyword _ (by cases kind <;> rfl)
  exact (hword.mono id IsKeyword.closes).append row_semicolon

/-- **The pieces of a statement are apart**, and everything may follow them. -/
theorem Holds.row (h : s.Holds (Expr.Laid strict) fun d => Row strict Begins Closes d.pieces) :
    Row strict Begins Ends s.pieces := by
  induction h with
  | expr he => exact row_expr he
  | decl hd => exact hd.append row_semicolon
  | block _ ih => exact row_braced (row_listPieces ih)
  | ifThen hcondition _ ih =>
    exact (row_headPieces .if_ rfl hcondition).join (row_innerPieces ih) fun ha _ => ha.apart
  | ifElse hcondition _ _ ihThen ihElse => exact row_ifElse hcondition ihThen ihElse
  | forLoop hstart hcondition hstep _ ih => exact row_forLoop hstart hcondition hstep ih
  | whileLoop hcondition _ ih =>
    exact (row_headPieces .while_ rfl hcondition).join (row_innerPieces ih) fun ha _ => ha.apart
  | doWhile _ hcondition ih => exact row_doWhile ih hcondition
  | switch hselector _ ih =>
    exact (row_headPieces .switch rfl hselector).join (row_braced (row_listPieces ih)) fun ha _ => ha.apart
  | label hvalue => exact row_label hvalue
  | result hvalue => exact row_result hvalue
  | jump => exact row_jump
  | empty =>
    have hsign : IsSign (.tight ";") .semicolon := ⟨rfl, rfl⟩
    exact .singleton hsign.valid rfl
      ⟨rfl, .inr fun d hd => .inr (.inl (Option.mem_some_iff.mp hd).symm)⟩ (hsign.final (by decide))

theorem Written.holds {D : Declaration → Prop} {S : List String} (h : s.Written (fun _ _ => False) S) :
    s.Holds (Expr.Laid strict) D := by
  induction s using forall_of_children generalizing S with
  | h s ih =>
  have hlist {ss : List Stmt} (hss : ∀ x ∈ ss, x ∈ s.children) {S : List String}
      (h : WrittenAll (fun _ _ => False) S ss) : ∀ x ∈ ss, x.Holds (Expr.Laid strict) D := by
    induction ss generalizing S with
    | nil => exact fun x hx => by cases hx
    | cons x xs ihs =>
      rintro y (_ | ⟨_, hy⟩)
      · exact ih x (hss x List.mem_cons_self) h.1
      · exact ihs (fun z hz => hss z (List.mem_cons_of_mem x hz)) h.2 y hy
  have hlaid {S : List String} {e : Option Expr} (he : ∀ x ∈ e, x.Written S) : ∀ x ∈ e, x.Laid strict :=
    fun x hx => (he x hx).laid
  cases s with
  | expr loc e => exact .expr (Expr.Written.laid h)
  | decl loc d => exact False.elim h
  | block loc body => exact .block (hlist (fun _ hx => hx) h)
  | ifThen loc condition thenBranch => exact .ifThen h.1.laid (ih _ (by simp [children]) h.2)
  | ifElse loc condition thenBranch elseBranch =>
    exact .ifElse h.1.laid (ih _ (by simp [children]) h.2.1) (ih _ (by simp [children]) h.2.2)
  | forLoop loc start test step body =>
    refine .forLoop ?_ (hlaid h.2.1) (hlaid h.2.2.1) (ih _ (by simp [children]) h.2.2.2)
    cases start with
    | absent => exact .absent
    | empty loc => exact .empty
    | expr loc e => exact .expr (Expr.Written.laid h.1)
    | decl loc d => exact False.elim h.1
  | whileLoop loc condition body => exact .whileLoop h.1.laid (ih _ (by simp [children]) h.2)
  | doWhile loc body condition => exact .doWhile (ih _ (by simp [children]) h.1) h.2.laid
  | switch loc selector bodyLoc body => exact .switch h.1.laid (hlist (fun _ hx => hx) h.2)
  | label loc value => exact .label (hlaid h)
  | result loc value => exact .result (hlaid h)
  | jump loc kind => exact .jump
  | empty loc => exact .empty

/-! ### Text -/

/-- **Reading the text of a statement gives the statement back**: the text is tokenized, all tokens in
front of the closing one belong to the statement, and what is read differs only in places and types, in a
block around a branch that would take the `else` behind it, and in an empty first part of a loop head,
which is read as missing. -/
theorem exists_statement_text (S : List String) (s : Stmt) (h : s.Written (fun _ _ => False) S) :
    ∃ ls, Lexer.tokenize s.text = .ok ls ∧
      ∃ s' c, Parse.statement (Cursor.knowing S ls).fuel (Cursor.knowing S ls) = .ok (s', c) ∧
        c.rest.map (·.token) = [.endOfText] ∧ s'.bare = s.guarded.bare := by
  have hholds : s.Holds (Expr.Laid true) fun d => Row true Begins Closes d.pieces := h.holds
  have hrow := hholds.row.cons_gap (a := .line) rfl
  obtain ⟨ls, hls, htokens⟩ := hrow.legible.exists_tokenize .compact
  have hlength : ls.length = s.tokens.length + 1 := by
    simpa [tokens] using congrArg List.length htokens
  have hfuel : 4 * s.tokens.length ≤ (Cursor.knowing S ls).fuel := by
    show _ ≤ 16 * (ls.length + 1)
    omega
  have hview : (Cursor.knowing S ls).view = ⟨s.tokens ++ [.endOfText], S⟩ :=
    congrArg (View.mk · S) htokens
  obtain ⟨s', c, hread, hc, hs'⟩ := h.parsed.reads hfuel (fun _ => Token.noConfusion) _ hview
  exact ⟨ls, hls, s', c, hread, congrArg View.tokens hc, hs'⟩

/-- The statement `if (a) for (;;) if (b) break; else return;` whose `else` belongs to the first `if`. -/
theorem exists_statement_text_open : let n : Note := .unresolved .none
    let s : Stmt := .ifElse .none (.var n "a")
      (.forLoop .none (.empty .none) none none (.ifThen .none (.var n "b") (.jump .none .breakOut)))
      (.result .none none)
    s.Written (fun _ _ => False) [] ∧ ∃ ls, Lexer.tokenize s.text = .ok ls ∧
      ∃ s' c, Parse.statement (Cursor.knowing [] ls).fuel (Cursor.knowing [] ls) = .ok (s', c) ∧
        c.rest.map (·.token) = [.endOfText] ∧ s'.bare = s.guarded.bare := by
  intro n s
  have ha : IsName "a" := ⟨⟨_, _, rfl, by decide⟩, by decide, by decide, rfl⟩
  have hb : IsName "b" := ⟨⟨_, _, rfl, by decide⟩, by decide, by decide, rfl⟩
  have h : s.Written (fun _ _ => False) [] := by
    simp [s, Written, LoopStart.Written, LoopStart.defined, Expr.Written, Expr.nodes, Expr.NodeWritten, ha, hb]
  exact ⟨h, exists_statement_text [] s h⟩

end Stmt

end GlslEs
