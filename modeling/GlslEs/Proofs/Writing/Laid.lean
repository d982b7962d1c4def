import GlslEs.Proofs.Writing.Numbers
import GlslEs.Proofs.Writing.Operand

/-!
# Expressions whose pieces are apart

Names, numbers and signs are put together to operands, and operands with what stands between them to larger
ones.  All that is asked of an expression is that its words are words and that no list of items is empty.

* `Expr.operand_constant`, `Expr.operand_name`, `Expr.operand_type`: one word.
* `Expr.Laid`: the pieces are apart, and what binds tightest may be followed by a selection.
* `Expr.laid_of_nodes`: **the pieces of an expression are apart** if its words are.
-/

namespace GlslEs

namespace Expr

variable {a : Piece} {p : Punct} {t : Token} {r : Option (List Token)} {name : String} {ps : List Piece}
  {e : Expr} {args : List Expr}

theorem pieces_eq_enclosed (needed : Nat) (e : Expr) :
    e.pieces needed = enclosed needed e (e.pieces Level.sequence) := by
  cases e <;> simp [pieces, enclosed, Level.sequence]

theorem trailing_le_baseLevel (e : Expr) : Level.trailing ≤ e.baseLevel := by
  cases e <;> exact Nat.le_of_ble_eq_true rfl
open Piece (Opens Closes Follows IsSign Operand Tail Row Legible Apart lastText? firstText? followers)

variable {strict : Bool}

/-- A sign that ends an operand ends in front of everything that may follow one. -/
theorem closes_of_sign (ha : IsSign a p)
    (hp : followers.all p.stops = true) : Closes a where
  text := ha.text
  last t ht := by
    rw [ha.tokens] at ht
    rw [← Option.mem_some_iff.mp ht]
    exact List.all_eq_true.mp hp

/-- Whether a sign may stand behind an operand. -/
def followsOperand (p : Punct) : Bool := p.text.toList.head?.all followers.contains

theorem follows_of_sign (ha : IsSign a p) (hp : followsOperand p = true) : Follows a := by
  refine ⟨ha.text, ha.spelling ▸ fun d hd => ?_⟩
  exact List.contains_iff_mem.mp (Option.all_eq_true _ _ |>.mp hp d hd)

/-- A sign that may stand behind an operand and ends one. -/
theorem tail_of_sign (ha : IsSign a p) (hfollows : followsOperand p = true)
    (hcloses : followers.all p.stops = true) : Tail strict [a] :=
  .singleton ha.valid ha.text (follows_of_sign ha hfollows) (closes_of_sign ha hcloses)

theorem tail_rightParen : Tail strict [.tight ")"] :=
  tail_of_sign (p := .rightParen) ⟨rfl, rfl⟩ rfl rfl

/-- The last token ends in front of a point, so a selection may follow. -/
def Selectable (ps : List Piece) : Prop :=
  ∀ a ∈ lastText? ps, ∀ t ∈ a.tokens.getLast?, t.stops '.' = true

theorem selectable_append_sign (ps : List Piece) (ha : IsSign a p)
    (hp : p.stops '.' = true) : Selectable (ps ++ [a]) := by
  intro b hb t ht
  rw [Piece.lastText?_append, lastText?, List.filter_cons_of_pos ha.text] at hb
  obtain rfl : a = b := Option.mem_some_iff.mp hb
  rw [ha.tokens] at ht
  rw [← Option.mem_some_iff.mp ht]
  exact hp

/-! Names and literals. -/

/-- Words and numbers end in front of everything that may follow an operand. -/
theorem stops_follower (h : ∀ p, t ≠ .punct p) : ∀ d ∈ followers, t.stops d = true := by
  have hword : ∀ d ∈ followers, (!Text.isNameChar d) = true := List.all_eq_true.mp rfl
  have hnumber : ∀ d ∈ followers, (!Text.isNameChar d && d != '.') = true := List.all_eq_true.mp rfl
  cases t with
  | punct p => exact absurd rfl (h p)
  | int n | uint n | float x => exact hnumber
  | _ => exact hword

theorem closes_of_lexesAs (htext : a.isText = true)
    (hlexes : Lexer.LexesAs a.text r) (ht : (Lexer.closedTokens r).getLast? = some t)
    (h : ∀ d ∈ followers, t.stops d = true) : Closes a where
  text := htext
  last u hu := by
    rw [Piece.tokens, Piece.reading_eq hlexes, ht] at hu
    rwa [← Option.mem_some_iff.mp hu]

theorem operand_word {word : String} (hlexes : Lexer.LexesAs word.toList r)
    (hstrict : strict = true → r.isSome = true) (ht : (Lexer.closedTokens r).getLast? = some t)
    (hopens : ∀ d ∈ word.toList.head?, Text.isNameChar d = true ∨ d ∈ Piece.openers)
    (hcloses : ∀ d ∈ followers, t.stops d = true) : Operand strict [.word word] :=
  have hlexes : Lexer.LexesAs (Piece.word word).text r := hlexes
  .singleton (Piece.valid_of_lexesAs hlexes hstrict) rfl ⟨rfl, rfl, hopens⟩ (closes_of_lexesAs rfl hlexes ht hcloses)

/-- What ends like a word may end an operand. -/
theorem closes_of_endsLikeWord (htext : a.isText = true)
    (hlexes : Lexer.LexesAs a.text r) (h : Lexer.EndsLikeWord r) : Closes a := by
  obtain ⟨t, ht, hstops⟩ := h
  exact closes_of_lexesAs htext hlexes ht fun d hd =>
    hstops d (stops_follower (fun _ => Token.noConfusion) d hd)

theorem operand_constant (value : Constant) : Operand strict [.word value.spelling] := by
  obtain ⟨⟨ts, t, hspells, ht, hstops⟩, hstarts⟩ := value.spellsNumber_spelling
  have hnumber : ∀ d ∈ followers, (!Text.isNameChar d && d != '.') = true := List.all_eq_true.mp rfl
  refine operand_word hspells (fun _ => rfl) ht (fun d hd => ?_) fun d hd => hstops d (hnumber d hd)
  rcases hstarts d hd with hname | rfl | rfl | rfl
  · exact .inl hname
  · exact .inr (by decide)
  · exact .inr (by decide)
  · exact .inr (by decide)

theorem operand_name (h : Lexer.Wordlike strict name) : Operand strict [.word name] :=
  have hlexes : Lexer.LexesAs (Piece.word name).text (Lexer.wordReading name) := Lexer.lexesAs_word h
  .singleton (Piece.valid_of_lexesAs hlexes h.isSome_wordReading) rfl
    ⟨rfl, rfl, fun d hd => .inl (h.forall_isNameChar d (List.mem_of_mem_head? hd))⟩
    (closes_of_endsLikeWord rfl hlexes (Lexer.endsLikeWord_wordReading name))

/-- The word of a type that reading may give. -/
theorem operand_type {S : List String} {ty : Ty} (h : ty.Written S) : Operand strict [.word ty.name] := by
  obtain ⟨us, htype, hspells, hhead⟩ := Ty.exists_spellsAll h
  have hlast : ∃ t, us.getLast? = some t ∧ ∀ d ∈ followers, t.stops d = true := by
    cases htype with
    | word ty | struct hname => exact ⟨_, rfl, stops_follower fun _ => Token.noConfusion⟩
    | array hty size => exact ⟨.punct .rightBracket, rfl, List.all_eq_true.mp rfl⟩
  obtain ⟨t, ht, hcloses⟩ := hlast
  exact operand_word hspells (fun _ => rfl) ht (fun d hd => .inl (hhead d hd)) hcloses

/-- The word of any type, with a length that may be too large. -/
theorem operand_typeName {ty : Ty} (h : Lexer.Wordlike false ty.baseName) : Operand false [.word ty.name] := by
  obtain ⟨r, hlexes, hends, hhead⟩ := Ty.exists_lexesAs h
  exact .singleton (Piece.valid_of_lexesAs (p := .word ty.name) hlexes fun h => by cases h) rfl
    ⟨rfl, rfl, fun d hd => .inl (hhead d hd)⟩ (closes_of_endsLikeWord rfl hlexes hends)

/-! ### Selections and calls -/

theorem opens_leftParen : Opens (.word "(") :=
  ⟨rfl, rfl, fun d hd => .inr (by rw [← Option.mem_some_iff.mp hd]; exact List.contains_iff_mem.mp rfl)⟩

theorem operand_enclosed (h : Operand strict ps) : Operand strict (.word "(" :: (ps ++ [.tight ")"])) :=
  (h.append tail_rightParen).sign_cons (p := .leftParen) ⟨rfl, rfl⟩ (by decide) opens_leftParen

/-- A name that ends a row may be followed by a selection. -/
theorem selectable_name (h : Lexer.Wordlike strict name)
    (hlast : lastText? ps = some a) (htext : a.text = name.toList) : Selectable ps := by
  intro b hb t ht
  rw [hlast] at hb
  obtain rfl : a = b := Option.mem_some_iff.mp hb
  obtain ⟨u, hu, hstops⟩ := Lexer.endsLikeWord_wordReading name
  rw [Piece.tokens, Piece.reading_eq (htext ▸ Lexer.lexesAs_word h), hu] at ht
  rw [← Option.mem_some_iff.mp ht]
  exact hstops '.' rfl

/-- A name behind a point. -/
theorem operand_select (h : Operand strict ps) (hselect : Selectable ps)
    (hname : Lexer.Wordlike strict name) :
    Operand strict (ps ++ [.tight ".", .tight name]) ∧ Selectable (ps ++ [.tight ".", .tight name]) := by
  have hdot : IsSign (.tight ".") .dot := ⟨rfl, rfl⟩
  have hlexes : Lexer.LexesAs (Piece.tight name).text (Lexer.wordReading name) := Lexer.lexesAs_word hname
  have hlast : lastText? (ps ++ [.tight ".", .tight name]) = some (.tight name) := by
    rw [Piece.lastText?_append]
    rfl
  have hpair : Legible strict [.tight ".", .tight name] := by
    have hlegible : Legible strict [.tight name] :=
      Piece.legible_singleton (Piece.valid_of_lexesAs hlexes hname.isSome_wordReading)
    refine (Piece.legible_singleton hdot.valid).append hlegible ?_
    rintro _ ⟨⟩ _ ⟨⟩ t ht d hd
    obtain ⟨c, cs, hchars, hletter, -⟩ := hname.chars
    have ht : t ∈ (Piece.tight ".").tokens.getLast? := ht
    rw [Piece.tokens_tight_dot] at ht
    obtain rfl : .punct .dot = t := Option.mem_some_iff.mp ht
    obtain rfl : c = d := by
      have hd : d ∈ name.toList.head? := hd
      rw [hchars] at hd
      exact Option.mem_some_iff.mp hd
    refine .inr (Punct.stops_of_isNameChar (fun _ => ?_) (by simp [Text.isNameChar, hletter]))
    rw [Bool.eq_false_iff]
    intro hdigit
    rw [Lexer.isLetter_of_isDigit hdigit] at hletter
    cases hletter
  obtain ⟨b, hb, hopens⟩ := h.first
  refine ⟨⟨h.legible.append hpair ?_, ⟨b, ?_, hopens⟩, _, hlast, ?_⟩, selectable_name hname hlast rfl⟩
  · rintro a ha _ ⟨⟩ t ht d hd
    obtain rfl : '.' = d := Option.mem_some_iff.mp hd
    exact .inr (hselect a ha t ht)
  · rw [Piece.firstText?_append, hb]
    rfl
  · exact closes_of_endsLikeWord rfl hlexes (Lexer.endsLikeWord_wordReading name)

/-- The pieces of an expression are apart, and what binds tightest may be followed by a selection. -/
structure Laid (strict : Bool) (e : Expr) : Prop where
  operand : Operand strict (e.pieces Level.sequence)
  selectable : e.baseLevel ≤ e.level → Selectable (e.pieces Level.sequence)

theorem Laid.operand_pieces (h : Laid strict e) (needed : Nat) : Operand strict (e.pieces needed) := by
  rw [pieces_eq_enclosed, enclosed]
  split
  · exact operand_enclosed h.operand
  · exact h.operand

theorem Laid.selectable_base (h : Laid strict e) : Selectable (e.pieces e.baseLevel) := by
  rw [pieces_eq_enclosed, enclosed]
  split
  · exact selectable_append_sign (.word "(" :: _) (a := .tight ")") (p := .rightParen) ⟨rfl, rfl⟩ (by decide)
  · exact h.selectable (Nat.le_of_not_lt ‹_›)

/-- Where the level is too low, nothing is asked. -/
theorem laid_of_level (h : Operand strict (e.pieces Level.sequence)) (hlevel : e.level < e.baseLevel) :
    Laid strict e := ⟨h, fun hle => absurd hlevel (Nat.not_lt.mpr hle)⟩

theorem operand_itemPieces {es : List Expr} (hne : es ≠ []) (h : ∀ e ∈ es, Laid strict e) :
    Operand strict (itemPieces es) := by
  induction es with
  | nil => exact absurd rfl hne
  | cons e es ih =>
    have he := (h e List.mem_cons_self).operand_pieces Level.assign
    cases es with
    | nil => exact he
    | cons e' es =>
      have hrest := ih (List.cons_ne_nil e' es) fun x hx => h x (List.mem_cons_of_mem e hx)
      rw [itemPieces, List.append_assoc]
      · refine he.append ?_
        refine Row.sign_cons (p := .comma) (hrest.cons_gap (a := .space) rfl) ⟨rfl, rfl⟩ (by decide) ?_
        exact follows_of_sign (p := .comma) ⟨rfl, rfl⟩ rfl
      · exact List.cons_ne_nil e' es

/-- The arguments of a call with their parentheses. -/
theorem tail_arguments (h : ∀ e ∈ args, Laid strict e) :
    Tail strict (.tight "(" :: (itemPieces args ++ [.tight ")"])) := by
  have hsign : IsSign (.tight "(") .leftParen := ⟨rfl, rfl⟩
  have hfollows : Follows (.tight "(") := follows_of_sign hsign rfl
  cases args with
  | nil =>
    refine ⟨(Piece.legible_singleton hsign.valid).append tail_rightParen.legible ?_,
      ⟨_, rfl, hfollows⟩, ⟨_, rfl, closes_of_sign (p := .rightParen) ⟨rfl, rfl⟩ rfl⟩⟩
    rintro _ ⟨⟩ _ ⟨⟩
    exact (closes_of_sign hsign rfl).apart (follows_of_sign (p := .rightParen) ⟨rfl, rfl⟩ rfl)
  | cons e es =>
    exact Row.sign_cons ((operand_itemPieces (List.cons_ne_nil e es) h).append tail_rightParen) hsign
      (by decide) hfollows

theorem laid_call (note : Note) {callee : Callee}
    (hcallee : Operand strict [.word callee.name]) (hargs : ∀ e ∈ args, Laid strict e) : Laid strict (.call note callee args) := by
  have hpieces : (call note callee args).pieces Level.sequence =
      [.word callee.name] ++ .tight "(" :: (itemPieces args ++ [.tight ")"]) := by
    simp [pieces, enclosed, Level.sequence]
  refine ⟨hpieces ▸ hcallee.append (tail_arguments hargs), fun _ => ?_⟩
  have hlast : [.word callee.name] ++ .tight "(" :: (itemPieces args ++ [.tight ")"]) =
      ([.word callee.name, .tight "("] ++ itemPieces args) ++ [Piece.tight ")"] := by simp
  rw [hpieces, hlast]
  exact selectable_append_sign _ (p := .rightParen) ⟨rfl, rfl⟩ (by decide)

theorem laid_unary (note : Note) (op : UnaryOp) {operand : Expr} (h : Laid strict operand) :
    Laid strict (.unary note op operand) := by
  have hsign : IsSign (.word op.text) op.sign := ⟨rfl, rfl⟩
  by_cases hop : op.isTrailing = true
  · have hpieces : (unary note op operand).pieces Level.sequence =
        operand.pieces Level.trailing ++ [.word op.text] := by
      simp [pieces, enclosed, Level.sequence, hop]
    have hfollows : followsOperand op.sign = true := by
      cases op <;> first | rfl | cases hop
    have hcloses : followers.all op.sign.stops = true := by
      cases op <;> first | rfl | cases hop
    exact ⟨hpieces ▸ (h.operand_pieces _).append (tail_of_sign hsign hfollows hcloses),
      fun _ => hpieces ▸ selectable_append_sign _ hsign (by cases op <;> decide)⟩
  · rw [Bool.not_eq_true] at hop
    have hpieces : (unary note op operand).pieces Level.sequence =
        .word op.text :: operand.pieces Level.unary := by
      simp [pieces, enclosed, Level.sequence, hop]
    refine laid_of_level ?_ ?_
    · rw [hpieces]
      refine Row.sign_cons (h.operand_pieces _) hsign (by cases op <;> decide) ⟨rfl, rfl, fun d hd => .inr ?_⟩
      cases op <;> rw [← Option.mem_some_iff.mp hd] <;> decide
    · have hlevel : (unary note op operand).level = Level.unary := if_neg (by simp [hop])
      rw [hlevel]
      exact Nat.lt_of_lt_of_le (by decide) (trailing_le_baseLevel _)

/-- What laying asks of a node, apart from the nodes below it. -/
def NodeLaid (strict : Bool) : Expr → Prop
  | .var _ name | .field _ _ name => Lexer.Wordlike strict name
  | .call _ callee _ => Operand strict [.word callee.name]
  | .swizzle _ _ set components => Lexer.Wordlike strict (set.word components)
  | .seq _ exprs => exprs ≠ []
  | .lit .. | .unary .. | .binary .. | .assign .. | .ternary .. | .index .. => True

/-- **The pieces of an expression are apart** if its words are. -/
theorem laid_of_nodes (h : ∀ x ∈ e.nodes, x.NodeLaid strict) : Laid strict e := by
  induction e using forall_of_children with
  | h e ih =>
  obtain ⟨hnode, hchildren⟩ := forall_mem_nodes.mp h
  have ih := fun c hc => ih c hc (hchildren c hc)
  -- What binds less tightly than a selection is never followed by one.
  have hloose {e : Expr} (hlevel : e.level < Level.trailing) (h : Operand strict (e.pieces Level.sequence)) : Laid strict e :=
    laid_of_level h (Nat.lt_of_lt_of_le hlevel e.trailing_le_baseLevel)
  cases e with
  | lit note value =>
    have hpieces : (lit note value).pieces Level.sequence = [.word value.spelling] := by
      simp [pieces, enclosed, Level.sequence]
    refine laid_of_level (hpieces ▸ operand_constant value) ?_
    simp only [level, baseLevel]
    split <;> decide
  | var note name =>
    have hpieces : (var note name).pieces Level.sequence = [.word name] := by
      simp [pieces, enclosed, Level.sequence]
    exact ⟨hpieces ▸ operand_name hnode, fun _ => hpieces ▸ selectable_name hnode rfl rfl⟩
  | unary note op operand => exact laid_unary note op (ih operand (by simp [children]))
  | binary note op left right =>
    have hpieces : (binary note op left right).pieces Level.sequence =
        left.pieces op.precedence ++ .operator op.text :: right.pieces (op.precedence + 1) := by
      simp [pieces, enclosed, Level.sequence]
    have hsign : IsSign (.operator op.text) op.sign := ⟨rfl, rfl⟩
    refine hloose (Nat.lt_of_le_of_lt op.precedence_le (by decide)) ?_
    rw [hpieces]
    refine ((ih left (by simp [children])).operand_pieces _).append
      (Row.sign_cons ((ih right (by simp [children])).operand_pieces _) hsign ?_ (follows_of_sign hsign ?_))
    · rcases op with op | op | op <;> cases op <;> decide
    · rcases op with op | op | op <;> cases op <;> rfl
  | assign note op target value =>
    have hpieces : (assign note op target value).pieces Level.sequence =
        target.pieces Level.unary ++ .operator op.text :: value.pieces Level.assign := by
      simp [pieces, enclosed, Level.sequence]
    have hsign : IsSign (.operator op.text) op.sign := ⟨rfl, rfl⟩
    refine hloose (show Level.assign < Level.trailing by decide) ?_
    rw [hpieces]
    refine ((ih target (by simp [children])).operand_pieces _).append
      (Row.sign_cons ((ih value (by simp [children])).operand_pieces _) hsign ?_ (follows_of_sign hsign ?_))
    · rcases op with _ | op <;> first | decide | (cases op <;> decide)
    · rcases op with _ | op <;> first | rfl | (cases op <;> rfl)
  | ternary note condition ifTrue ifFalse =>
    have hpieces : (ternary note condition ifTrue ifFalse).pieces Level.sequence =
        condition.pieces (Level.ternary + 1) ++ (.operator "?" :: ifTrue.pieces Level.assign) ++
          (.operator ":" :: ifFalse.pieces Level.ternary) := by
      simp [pieces, enclosed, Level.sequence]
    have hquestion : IsSign (.operator "?") .question := ⟨rfl, rfl⟩
    have hcolon : IsSign (.operator ":") .colon := ⟨rfl, rfl⟩
    refine hloose (show Level.ternary < Level.trailing by decide) ?_
    rw [hpieces]
    refine (((ih condition (by simp [children])).operand_pieces _).append
      (Row.sign_cons ((ih ifTrue (by simp [children])).operand_pieces _) hquestion (by decide)
        (follows_of_sign hquestion rfl))).append
      (Row.sign_cons ((ih ifFalse (by simp [children])).operand_pieces _) hcolon (by decide)
        (follows_of_sign hcolon rfl))
  | call note callee args => exact laid_call note hnode ih
  | swizzle note base set components =>
    have hbase := ih base (by simp [children])
    have hpieces : (swizzle note base set components).pieces Level.sequence =
        base.pieces base.baseLevel ++ [.tight ".", .tight (set.word components)] := by
      simp [pieces, enclosed, Level.sequence]
    obtain ⟨hoperand, hselectable⟩ := operand_select (hbase.operand_pieces _) hbase.selectable_base hnode
    exact ⟨hpieces ▸ hoperand, fun _ => hpieces ▸ hselectable⟩
  | field note base name =>
    have hbase := ih base (by simp [children])
    have hpieces : (field note base name).pieces Level.sequence =
        base.pieces base.baseLevel ++ [.tight ".", .tight name] := by
      simp [pieces, enclosed, Level.sequence]
    obtain ⟨hoperand, hselectable⟩ := operand_select (hbase.operand_pieces _) hbase.selectable_base hnode
    exact ⟨hpieces ▸ hoperand, fun _ => hpieces ▸ hselectable⟩
  | index note base position =>
    have hpieces : (index note base position).pieces Level.sequence =
        base.pieces base.baseLevel ++ .tight "[" :: (position.pieces Level.sequence ++ [.tight "]"]) := by
      simp [pieces, enclosed, Level.sequence]
    have hopen : IsSign (.tight "[") .leftBracket := ⟨rfl, rfl⟩
    have hclose : IsSign (.tight "]") .rightBracket := ⟨rfl, rfl⟩
    have htail : Tail strict [.tight "]"] := tail_of_sign hclose rfl rfl
    refine ⟨?_, fun _ => ?_⟩
    · rw [hpieces]
      exact ((ih base (by simp [children])).operand_pieces _).append
        (Row.sign_cons ((ih position (by simp [children])).operand.append htail) hopen (by decide)
          (follows_of_sign hopen rfl))
    · rw [hpieces, ← List.cons_append, ← List.append_assoc]
      exact selectable_append_sign _ hclose (by decide)
  | seq note exprs =>
    have hpieces : (seq note exprs).pieces Level.sequence = itemPieces exprs := by
      simp [pieces, enclosed, Level.sequence]
    exact hloose (show Level.sequence < Level.trailing by decide) (hpieces ▸ operand_itemPieces hnode ih)

end Expr

end GlslEs
