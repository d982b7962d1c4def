import GlslEs.Proofs.Writing.Lines
import GlslEs.Shader.Writer

/-!
# Declarations whose pieces are apart

All that writing needs is that words are words: the names of what is declared, of members, of types and of
layout entries.

* `TopLevel.Worded.mono`: what holds of more expressions.
* `Piece.Leads`: a piece that words and whatever else starts a statement may follow.
* `TopLevel.Worded.row`: **the pieces of a declaration at the top of a shader are apart** if those of its
  expressions are.
-/

namespace GlslEs

variable {ty : Ty} {array : Option ArrayLength} {e : LayoutEntry} {d : Declaration}

/-! ### Words -/

theorem Ty.baseName_of_isError (h : ty.isError = true) : ty.baseName = "<error>" := by
  simp only [Ty.baseName, beq_iff_eq.mp h]

/-- A type with a word is known. -/
theorem Ty.known_of_wordlike {strict : Bool} (h : Lexer.Wordlike strict ty.baseName) :
    ty.isError = false := by
  cases herror : ty.isError with
  | false => rfl
  | true =>
    obtain ⟨c, cs, hchars, hletter, -⟩ := h.chars
    rw [baseName_of_isError herror] at hchars
    cases hchars
    cases hletter

theorem Ty.Worded.known {strict : Bool} (h : ty.Worded strict array)
    (hsized : (ty.isError && array.isSome) = false) : ty.isError = false := by
  rcases h with h | ⟨-, herror, harray⟩
  · exact known_of_wordlike h
  · simp [herror, harray] at hsized

theorem Declaration.Worded.values {strict : Bool} {E : Expr → Prop} (h : d.Worded strict E) :
    ∀ e ∈ d.values, E e := by
  intro e he
  obtain ⟨x, hx, he⟩ := List.mem_filterMap.mp he
  exact (h.declarators x hx).value e he

/-! What holds of more expressions. -/

theorem Lexer.Wordlike.lax {strict : Bool} {word : String} (h : Wordlike strict word) : Wordlike false word :=
  ⟨h.chars, fun hfalse => Bool.noConfusion hfalse⟩

theorem Ty.Worded.lax {strict : Bool} (h : ty.Worded strict array) :
    ty.Worded false array := h.imp (·.lax) fun h => ⟨rfl, h.2⟩

theorem LayoutEntry.Worded.lax {strict : Bool} (h : e.Worded strict) : e.Worded false :=
  ⟨h.name.lax, h.value⟩

section

variable {strict : Bool} {E E' : Expr → Prop} (hE : ∀ e, E e → E' e)

include hE

theorem ArrayLength.Worded.mono {a : ArrayLength} (h : a.Worded E) : a.Worded E' := by
  cases a with
  | sized e => exact hE e h
  | unsized => trivial

theorem Member.Worded.mono {m : Member} (h : m.Worded strict E) : m.Worded false E' :=
  ⟨h.name.lax, h.ty.lax, fun a ha => (h.array a ha).mono hE, fun e he => (h.layout e he).lax⟩

theorem StructDef.Worded.mono {d : StructDef} (h : d.Worded strict E) : d.Worded false E' :=
  ⟨h.name.lax, fun m hm => (h.members m hm).mono hE⟩

theorem Declarator.Worded.mono {x : Declarator} (h : x.Worded strict E) : x.Worded false E' :=
  ⟨h.name.lax, fun a ha => (h.array a ha).mono hE, fun e he => hE e (h.value e he)⟩

theorem Declaration.Worded.mono {d : Declaration} (h : d.Worded strict E) : d.Worded false E' :=
  ⟨fun e he => (h.layout e he).lax, fun s hs => (h.struct s hs).mono hE, h.ty.lax,
    fun x hx => (h.declarators x hx).mono hE⟩

theorem InterfaceBlock.Worded.mono {b : InterfaceBlock} (h : b.Worded strict E) : b.Worded false E' :=
  ⟨fun e he => (h.layout e he).lax, h.name.lax, fun m hm => (h.members m hm).mono hE,
    fun name hname => (h.instanceName name hname).lax, fun a ha => (h.array a ha).mono hE, h.array_none⟩

theorem Parameter.Worded.mono {x : Parameter} (h : x.Worded strict E) : x.Worded false E' :=
  ⟨fun name hname => (h.name name hname).lax, h.ty.lax, fun a ha => (h.array a ha).mono hE⟩

theorem Prototype.Worded.mono {p : Prototype} (h : p.Worded strict E) : p.Worded false E' :=
  ⟨h.name.lax, h.result.lax, fun x hx => (h.parameters x hx).mono hE⟩

theorem TopLevel.Worded.mono {d : TopLevel} (h : d.Worded strict E) : d.Worded false E' := by
  cases d with
  | precision => exact Lexer.Wordlike.lax h
  | globals => exact Declaration.Worded.mono hE h
  | struct => exact StructDef.Worded.mono hE h
  | block => exact InterfaceBlock.Worded.mono hE h
  | layout => exact fun e he => LayoutEntry.Worded.lax (h e he)
  | prototype => exact Prototype.Worded.mono hE h
  | function =>
    exact ⟨h.1.mono hE, fun s hs => Stmt.Holds.mono (h.2 s hs) hE fun _ hd => hd.mono hE⟩

end

namespace Piece

variable {a : Piece} {word : String}

open Lexer

variable {strict : Bool} {P Q : Piece → Prop} {ps qs : List Piece}

/-! ### Where words meet -/

/-- A piece that everything may follow that a statement may start with. -/
structure Leads (a : Piece) : Prop where
  text : a.isText = true
  apart : ∀ {b : Piece}, b.Begins → Apart a b

theorem Ends.leads (h : a.Ends) : a.Leads := ⟨h.text, fun _ => h.apart⟩

theorem Ends.closes (h : a.Ends) : a.Closes := ⟨h.text, fun t ht d _ => h.last t ht d⟩

/-- A piece that starts with a character. -/
structure StartsWith (c : Char) (b : Piece) : Prop where
  text : b.isText = true
  head : b.text.head? = some c

theorem StartsWith.follows {b : Piece} {c : Char} (h : StartsWith c b) (hc : c ∈ followers) : b.Follows :=
  ⟨h.text, fun d hd => by rw [h.head] at hd; rwa [← Option.mem_some_iff.mp hd]⟩

/-- The first characters of what may stand behind a parameter or its type. -/
def delimiters : List Char := [',', ')', '[']

/-- A piece that a parameter may end with. -/
structure Delimited (a : Piece) : Prop where
  text : a.isText = true
  last : ∀ t ∈ a.tokens.getLast?, ∀ d ∈ delimiters, t.stops d = true

theorem Closes.delimited (h : a.Closes) : a.Delimited := by
  have hall : ∀ d ∈ delimiters, followers.contains d = true := List.all_eq_true.mp rfl
  exact ⟨h.text, fun t ht d hd => h.last t ht d (List.contains_iff_mem.mp (hall d hd))⟩

theorem Delimited.apart {b : Piece} {c : Char} (h : a.Delimited) (hb : StartsWith c b) (hc : c ∈ delimiters) :
    Apart a b := by
  intro t ht d hd
  rw [hb.head] at hd
  exact .inr (h.last t ht d (by rwa [← Option.mem_some_iff.mp hd]))

/-! ### Single words -/

theorem operand_leads (h : Wordlike strict word) :
    Row strict Begins (fun a => a.Leads ∧ a.Closes) [.word word] := by
  have hoperand := Expr.operand_name h
  obtain ⟨a, ha, hcloses⟩ := hoperand.last
  obtain rfl : .word word = a := Option.mem_some_iff.mp ha
  refine ⟨hoperand.legible, hoperand.first.imp fun _ => And.imp_right Opens.begins, _, ha, ⟨rfl, ?_⟩, hcloses⟩
  exact fun hb => apart_of_wordlike h rfl hb

theorem row_word (h : Wordlike strict word) : Row strict Begins Closes [.word word] :=
  (operand_leads h).mono id And.right

theorem row_lead (h : Wordlike strict word) : Row strict Begins Leads [.word word] :=
  (operand_leads h).mono id And.left

theorem spellsAll_errorType :
    SpellsAll "<error>".toList [.punct .less, .identifier "error", .punct .greater] := by
  have hname : SpellsAll "error".toList [.identifier "error"] :=
    spellsAll_word ⟨⟨_, _, rfl, by decide⟩, fun _ => by decide⟩
  exact SpellsAll.append (spellsAll_sign .less)
    (hname.append (spellsAll_sign .greater) (by simp) rfl rfl rfl) (by simp) rfl rfl (by decide)

/-- A sign that ends the text of an unknown type ends in front of words. -/
theorem row_typeWord {ty : Ty} {array : Option ArrayLength} (h : ty.Worded strict array) :
    Row strict Begins (fun a => a.Leads ∧ a.Delimited) [.word ty.baseName] := by
  rcases h with h | ⟨-, herror, -⟩
  · exact (operand_leads h).mono id fun ⟨hleads, hcloses⟩ => ⟨hleads, hcloses.delimited⟩
  · rw [Ty.baseName_of_isError herror]
    have hspells : SpellsAll (Piece.word "<error>").text _ := spellsAll_errorType
    have htokens := tokens_eq hspells
    have hlast {t : Token} (ht : t ∈ (Piece.word "<error>").tokens.getLast?) : t = .punct .greater := by
      rw [htokens] at ht
      exact (Option.mem_some_iff.mp ht).symm
    refine .singleton (valid_of_lexesAs hspells fun _ => rfl) rfl ⟨rfl, .inr fun d hd => ?_⟩
      ⟨⟨rfl, fun hb t ht d hd => .inr ?_⟩, rfl, fun t ht => ?_⟩
    · exact .inr (.inr (Option.mem_some_iff.mp hd).symm)
    · rw [hlast ht]
      rcases hb.head with ⟨-, hhead⟩ | hhead
      · rcases hhead d hd with hname | hopener
        · exact Punct.stops_of_isNameChar (fun h => by cases h) hname
        · have hall : ∀ d ∈ openers, Punct.greater.stops d = true := List.all_eq_true.mp (by decide)
          exact hall d hopener
      · rcases hhead d hd with rfl | rfl | rfl <;> decide
    · rw [hlast ht]
      exact List.all_eq_true.mp (by decide)

/-! ### Words in front of others -/

/-- Words that may be missing. -/
def Lead (strict : Bool) (ps : List Piece) : Prop := ps = [] ∨ Row strict Begins Leads ps

theorem Lead.row (hp : Lead strict ps) (hq : Row strict Begins Q qs) : Row strict Begins Q (ps ++ qs) := by
  rcases hp with rfl | hp
  · exact hq
  · exact hp.join hq fun ha hb => ha.apart hb

theorem Lead.append (hp : Lead strict ps) (hq : Lead strict qs) : Lead strict (ps ++ qs) := by
  rcases hq with rfl | hq
  · rwa [List.append_nil]
  · exact .inr (hp.row hq)

theorem lead_nil : Lead strict [] := .inl rfl

theorem lead_word (h : Wordlike strict word) : Lead strict [.word word] := .inr (row_lead h)

theorem lead_ite (b : Bool) (h : Wordlike strict word) :
    Lead strict (if b then [.word word] else []) := by
  cases b
  · exact lead_nil
  · exact lead_word h

theorem lead_option {α : Type} {word : α → String} (x : Option α) (h : ∀ a, Wordlike strict (word a)) :
    Lead strict (x.map fun a => Piece.word (word a)).toList := by
  cases x with
  | none => exact lead_nil
  | some a => exact lead_word (h a)

/-! ### Commas -/

theorem row_commaSeparated {items : List (List Piece)} (hne : items ≠ []) (h : ∀ ps ∈ items, Row strict P Q ps)
    (hQ : ∀ {a b : Piece}, Q a → StartsWith ',' b → Apart a b) : Row strict P Q (commaSeparated items) := by
  have hsign : IsSign (.tight ",") .comma := ⟨rfl, rfl⟩
  have hcomma : Row strict (StartsWith ',') Ends comma :=
    (Row.singleton hsign.valid rfl ⟨rfl, rfl⟩ (hsign.final (by decide))).append_gap (a := .space) rfl
  induction items with
  | nil => exact absurd rfl hne
  | cons item items ih =>
    have hitem := h item List.mem_cons_self
    cases items with
    | nil => exact hitem
    | cons next items =>
      have hrest := ih (List.cons_ne_nil _ _) fun ps hps => h ps (List.mem_cons_of_mem item hps)
      rw [commaSeparated]
      · exact (hitem.join hcomma hQ).join hrest fun ha _ => ha.apart
      · exact List.cons_ne_nil _ _

theorem Closes.apart_comma {b : Piece} (ha : a.Closes) (hb : StartsWith ',' b) : Apart a b :=
  ha.apart (hb.follows (by decide))

end Piece

/-! ### Qualifiers -/

open Piece (Row Begins Ends Closes Follows Leads Lead IsSign StartsWith Delimited)

variable {strict : Bool}

theorem Precision.wordlike (p : Precision) : Lexer.Wordlike strict p.word := by
  cases p <;> exact ⟨⟨_, _, rfl, by decide⟩, fun _ => by decide⟩

theorem Interpolation.wordlike (i : Interpolation) : Lexer.Wordlike strict i.word := by
  cases i <;> exact ⟨⟨_, _, rfl, by decide⟩, fun _ => by decide⟩

/-- An entry of a layout list. -/
theorem LayoutEntry.Worded.row (h : e.Worded strict) :
    Row strict (fun _ => True) Closes
      (.tight e.name :: (e.value.map fun n => Piece.tight ("=" ++ toString n)).toList) := by
  have hlexes : Lexer.LexesAs (Piece.tight e.name).text (Lexer.wordReading e.name) := Lexer.lexesAs_word h.name
  have hname : Row strict (fun _ => True) Closes [.tight e.name] :=
    .singleton (Piece.valid_of_lexesAs hlexes h.name.isSome_wordReading) rfl trivial
      (Expr.closes_of_endsLikeWord rfl hlexes (Lexer.endsLikeWord_wordReading e.name))
  cases hvalue : e.value with
  | none => exact hname
  | some n =>
    have hn : n ≤ 0xFFFFFFFF := Nat.le_of_lt_succ (h.value n hvalue)
    obtain ⟨c, cs, hdigits⟩ := List.exists_cons_of_ne_nil (Nat.toDigits_ne_nil (b := 10) (n := n))
    have hc : Text.isNameChar c = true :=
      Lexer.isNameChar_of_isDigit (Lexer.isDigit_of_mem_toDigits c (hdigits ▸ List.mem_cons_self))
    have hspells : Lexer.SpellsAll (Piece.tight ("=" ++ toString n)).text
        [.punct .equal, .int (UInt32.ofNat n)] := by
      have htext : (Piece.tight ("=" ++ toString n)).text = Punct.equal.text.toList ++ (toString n).toList := by
        simp [Piece.text, Punct.text]
      rw [htext]
      refine (Lexer.spellsAll_sign .equal).append (Lexer.spellsAll_int hn) (by simp) rfl (c := c) ?_
        (Punct.stops_of_isNameChar (fun h => by cases h) hc)
      rw [show (toString n).toList = c :: cs by simpa using hdigits]
      rfl
    have hrow : Row strict Follows Closes [.tight ("=" ++ toString n)] :=
      .singleton (Piece.valid_of_lexesAs hspells fun _ => rfl) rfl
        (StartsWith.follows (c := '=') ⟨rfl, by simp [Piece.text]⟩ (by decide))
        (Expr.closes_of_lexesAs rfl hspells rfl (Expr.stops_follower fun _ => Token.noConfusion))
    exact hname.append hrow

theorem lead_layoutPieces {entries : List LayoutEntry} (h : ∀ e ∈ entries, e.Worded strict) :
    Lead strict (layoutPieces entries) := by
  unfold layoutPieces
  split
  · exact Piece.lead_nil
  · rename_i hne
    have hopen : IsSign (.tight "(") .leftParen := ⟨rfl, rfl⟩
    have hhead : Row strict Begins Ends [.word "layout", .tight "("] :=
      (Piece.row_word Keyword.layout.wordlike).append (Stmt.row_sign hopen (by decide) rfl)
    have hitems : Row strict (fun _ => True) Closes (Piece.commaSeparated (entries.map fun e =>
        .tight e.name :: (e.value.map fun n => Piece.tight ("=" ++ toString n)).toList)) := by
      refine Piece.row_commaSeparated (by simpa using hne) ?_ fun ha hb => ha.apart_comma hb
      simp only [List.mem_map]
      rintro _ ⟨e, he, rfl⟩
      exact (h e he).row
    have hclose : Row strict Follows Ends [.tight ")", .space] := Stmt.row_rightParen.append_gap rfl
    exact .inr (((hhead.join hitems fun ha _ => ha.apart).append hclose).mono id Ends.leads)

theorem TypeQualifiers.lead_pieces {q : TypeQualifiers} (h : ∀ e ∈ q.layout, e.Worded strict) :
    Lead strict q.pieces := by
  have hstorage (s : Storage) : Lexer.Wordlike strict s.word := s.keyword.wordlike
  exact (((((lead_layoutPieces h).append (Piece.lead_ite q.invariant Keyword.invariant.wordlike)).append
    (Piece.lead_option q.interpolation Interpolation.wordlike)).append
    (Piece.lead_ite q.centroid Keyword.centroid.wordlike)).append
    (Piece.lead_option q.storage hstorage)).append (Piece.lead_option q.precision Precision.wordlike)

/-! ### Array lengths, members and variables -/

theorem row_arrayPieces (h : ∀ a ∈ array, a.Worded (Expr.Laid strict)) :
    arrayPieces array = [] ∨ Row strict (StartsWith '[') Closes (arrayPieces array) := by
  cases array with
  | none => exact .inl rfl
  | some length =>
    refine .inr ?_
    cases length with
    | unsized =>
      have hspells : Lexer.SpellsAll (Piece.tight "[]").text [.punct .leftBracket, .punct .rightBracket] :=
        Lexer.SpellsAll.append (Lexer.spellsAll_sign .leftBracket) (Lexer.spellsAll_sign .rightBracket) (by simp)
          rfl rfl rfl
      exact .singleton (Piece.valid_of_lexesAs hspells fun _ => rfl) rfl ⟨rfl, rfl⟩
        (Expr.closes_of_lexesAs rfl hspells rfl (List.all_eq_true.mp rfl))
    | sized e =>
      have he : e.Laid strict := h _ rfl
      have hopen : IsSign (.tight "[") .leftBracket := ⟨rfl, rfl⟩
      have hclose : IsSign (.tight "]") .rightBracket := ⟨rfl, rfl⟩
      exact Row.sign_cons (he.operand.append (Expr.tail_of_sign hclose rfl rfl)) hopen (by decide) ⟨rfl, rfl⟩

/-- A length that may be missing behind a name. -/
theorem row_append_array {P : Piece → Prop} {ps : List Piece}
    (h : Row strict P Closes ps) (harray : ∀ a ∈ array, a.Worded (Expr.Laid strict)) :
    Row strict P Closes (ps ++ arrayPieces array) := by
  rcases row_arrayPieces harray with hnil | hrow
  · rwa [hnil, List.append_nil]
  · exact h.append (hrow.mono (fun hb => hb.follows (by decide)) id)

theorem Member.Worded.row {m : Member} (h : m.Worded strict (Expr.Laid strict)) :
    Row strict Begins Ends m.pieces := by
  have hname := (row_append_array (Piece.row_word h.name) h.array).append Stmt.row_semicolon
  have htype := ((Piece.row_typeWord h.ty).mono id And.left).join hname fun ha hb => Leads.apart ha hb
  have hrow := ((lead_layoutPieces h.layout).append (Piece.lead_option m.precision Precision.wordlike)).row htype
  simpa only [Member.pieces, List.append_assoc, List.cons_append, List.nil_append] using hrow.cons_gap (a := .line) rfl

theorem row_memberPieces {ms : List Member} (h : ∀ m ∈ ms, m.Worded strict (Expr.Laid strict)) :
    Row strict Begins Ends (memberPieces ms) :=
  Stmt.row_braced (Piece.row_flatMap fun m hm => (h m hm).row)

theorem StructDef.Worded.row {d : StructDef} (h : d.Worded strict (Expr.Laid strict)) :
    Row strict Begins Ends d.pieces :=
  ((Piece.row_lead Keyword.struct.wordlike).join (Piece.row_lead h.name) fun ha hb => ha.apart hb).join
    (row_memberPieces h.members) fun ha hb => ha.apart hb

theorem Declarator.Worded.row {x : Declarator} (h : x.Worded strict (Expr.Laid strict)) :
    Row strict Begins Closes x.pieces := by
  have hname := row_append_array (Piece.row_word h.name) h.array
  unfold Declarator.pieces
  cases hvalue : x.value with
  | none => simpa using hname
  | some e =>
    have hsign : IsSign (.operator "=") .equal := ⟨rfl, rfl⟩
    exact hname.append (Row.sign_cons ((h.value e hvalue).operand_pieces Level.assign) hsign (by decide)
      (Expr.follows_of_sign hsign rfl))

/-- The type of a declaration, or the structure that stands in its place. -/
theorem Declaration.Worded.row_type (h : d.Worded strict (Expr.Laid strict)) :
    Row strict Begins (fun a => a.Leads ∧ a.Closes) (match d.struct with
      | some s => s.pieces ++ if d.declarators.isEmpty then [] else [.space]
      | none => [.word d.ty.baseName]) := by
  cases hstruct : d.struct with
  | none => exact Piece.operand_leads h.ty
  | some s =>
    have hs := (h.struct s hstruct).row.mono id fun ha => And.intro ha.leads ha.closes
    dsimp only
    split
    · rwa [List.append_nil]
    · exact hs.append_gap rfl

theorem Declaration.Worded.row (h : d.Worded strict (Expr.Laid strict)) :
    Row strict Begins Closes d.pieces := by
  have hdeclarators : Piece.commaSeparated (d.declarators.map Declarator.pieces) = [] ∨
      Row strict Begins Closes (Piece.commaSeparated (d.declarators.map Declarator.pieces)) := by
    by_cases hnil : d.declarators = []
    · exact .inl (by rw [hnil]; rfl)
    · refine .inr (Piece.row_commaSeparated (by simpa using hnil) ?_ fun ha hb => ha.apart_comma hb)
      simp only [List.mem_map]
      rintro _ ⟨x, hx, rfl⟩
      exact (h.declarators x hx).row
  have htype := h.row_type
  have hlead := TypeQualifiers.lead_pieces h.layout
  unfold Declaration.pieces
  rcases hdeclarators with hnil | hdeclarators
  · rw [hnil, List.append_nil]
    exact hlead.row (htype.mono id And.right)
  · rw [List.append_assoc]
    exact hlead.row (htype.join hdeclarators fun ha hb => ha.1.apart hb)

theorem InterfaceBlock.Worded.row {b : InterfaceBlock} (h : b.Worded strict (Expr.Laid strict)) :
    Row strict Begins Ends b.pieces := by
  have hblock := (Piece.row_lead h.name).join (row_memberPieces h.members) fun ha hb => Leads.apart ha hb
  have hrow : Row strict Begins Ends (b.qualifiers.pieces ++ ([.word b.name] ++ memberPieces b.members)) :=
    (TypeQualifiers.lead_pieces h.layout).row hblock
  unfold InterfaceBlock.pieces
  rw [List.append_assoc b.qualifiers.pieces]
  cases hname : b.instanceName with
  | none =>
    rw [List.append_nil]
    exact hrow.join Stmt.row_semicolon fun ha _ => ha.apart
  | some name =>
    have hinstance := (row_append_array (Piece.row_word (h.instanceName name hname)) h.array).cons_gap
      (a := .space) rfl
    exact (hrow.join hinstance fun ha _ => ha.apart).append Stmt.row_semicolon

/-! ### Functions -/

theorem Direction.lead_pieces (d : Direction) : Lead strict d.pieces := by
  cases d with
  | input => exact Piece.lead_nil
  | output => exact Piece.lead_word Keyword.out.wordlike
  | inout => exact Piece.lead_word Keyword.inout.wordlike

theorem Parameter.Worded.row {x : Parameter} (h : x.Worded strict (Expr.Laid strict)) :
    Row strict Begins Delimited x.pieces := by
  have hprecision : Lead strict (x.precision.map fun p => Piece.word p.word).toList :=
    Piece.lead_option x.precision Precision.wordlike
  have hlead := ((Piece.lead_ite x.isConst Keyword.const.wordlike).append (Direction.lead_pieces x.direction)).append
    hprecision
  have htype := Piece.row_typeWord h.ty
  unfold Parameter.pieces
  rw [List.append_assoc, List.append_assoc]
  refine hlead.row ?_
  cases hname : x.name with
  | some name =>
    have hrest := row_append_array (Piece.row_word (h.name name hname)) h.array
    exact (htype.join hrest fun ha hb => ha.1.apart hb).mono id Closes.delimited
  | none =>
    rcases row_arrayPieces h.array with hnil | hrow
    · rw [hnil]
      exact htype.mono id And.right
    · exact (htype.join hrow fun ha hb => ha.2.apart hb (by decide)).mono id Closes.delimited

theorem Prototype.Worded.row {p : Prototype} (h : p.Worded strict (Expr.Laid strict)) :
    Row strict Begins Ends p.pieces := by
  have hopen : IsSign (.tight "(") .leftParen := ⟨rfl, rfl⟩
  have hclose : IsSign (.tight ")") .rightParen := ⟨rfl, rfl⟩
  have hcloseRow : Row strict (StartsWith ')') Ends [.tight ")"] :=
    .singleton hclose.valid rfl ⟨rfl, rfl⟩ (hclose.final (by decide))
  have hname : Row strict Begins Ends [.word p.result.baseName, .word p.name, .tight "("] :=
    (Piece.row_lead h.result).join ((Piece.row_word h.name).append (Stmt.row_sign hopen (by decide) rfl))
      fun ha hb => ha.apart hb
  have hhead := (Piece.lead_option p.precision Precision.wordlike).row hname
  unfold Prototype.pieces
  by_cases hnil : p.parameters = []
  · rw [hnil, List.append_assoc]
    exact hhead.join hcloseRow fun ha _ => ha.apart
  · have hparameters : Row strict Begins Delimited (Piece.commaSeparated (p.parameters.map Parameter.pieces)) := by
      refine Piece.row_commaSeparated (by simpa using hnil) ?_ fun ha hb => ha.apart hb (by decide)
      simp only [List.mem_map]
      rintro _ ⟨x, hx, rfl⟩
      exact (h.parameters x hx).row
    exact (hhead.join hparameters fun ha _ => ha.apart).join hcloseRow fun ha hb => ha.apart hb (by decide)

/-- **The pieces of a declaration at the top of a shader are apart**, and everything may follow them. -/
theorem TopLevel.Worded.row {d : TopLevel} (h : d.Worded strict (Expr.Laid strict)) :
    Row strict Begins Ends d.pieces := by
  have hsign : IsSign (.tight ";") .semicolon := ⟨rfl, rfl⟩
  have hsemicolon : Row strict Begins Ends [.tight ";"] :=
    .singleton hsign.valid rfl ⟨rfl, .inr fun d hd => .inr (.inl (Option.mem_some_iff.mp hd).symm)⟩
      (hsign.final (by decide))
  cases d with
  | precision p ty loc =>
    have hrow := (Piece.row_word (show Lexer.Wordlike strict ty.baseName from h)).append Stmt.row_semicolon
    exact (Piece.lead_word Keyword.precision.wordlike).row ((Piece.lead_word p.wordlike).row hrow)
  | globals d => exact (Declaration.Worded.row h).append Stmt.row_semicolon
  | struct d => exact (StructDef.Worded.row h).join Stmt.row_semicolon fun ha _ => ha.apart
  | block b => exact InterfaceBlock.Worded.row h
  | layout q loc => exact (TypeQualifiers.lead_pieces h).row hsemicolon
  | prototype p => exact (Prototype.Worded.row h).join Stmt.row_semicolon fun ha _ => ha.apart
  | function f =>
    have hbody : ∀ s ∈ f.body, Row strict Begins Ends s.pieces := fun s hs =>
      ((h.2 s hs).mono (fun _ he => he) fun _ hd => hd.row).row
    exact h.1.row.join (Stmt.row_braced (Stmt.row_listPieces hbody)) fun ha _ => ha.apart

end GlslEs
