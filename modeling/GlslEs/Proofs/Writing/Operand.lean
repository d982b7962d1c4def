import GlslEs.Proofs.Writing.Words

/-!
# Rows of pieces that stand for an operand

An operand starts with a name, a number or a sign that may stand in front of an operand, and it ends with
a name, a number or a sign that may stand behind one.  Wherever an operand meets a sign, the two are
read apart.

* `Piece.Operand`: a legible row that starts and ends like an operand.
* `Piece.Tail`: a legible row that may follow an operand, and ends like one.
* `Piece.Row.append`, `Piece.Row.sign_cons`: how rows are put together.
-/

namespace GlslEs

namespace Piece

variable {p a : Piece}

open Lexer

variable {strict : Bool}

/-! ### Legible rows -/

/-- The first piece with a text. -/
def firstText? (ps : List Piece) : Option Piece := (ps.filter isText).head?

/-- The last piece with a text. -/
def lastText? (ps : List Piece) : Option Piece := (ps.filter isText).getLast?

theorem firstText?_append (ps qs : List Piece) :
    firstText? (ps ++ qs) = (firstText? ps).or (firstText? qs) := by
  rw [firstText?, List.filter_append, List.head?_append]
  rfl

theorem lastText?_append (ps qs : List Piece) :
    lastText? (ps ++ qs) = (lastText? qs).or (lastText? ps) := by
  rw [lastText?, List.filter_append, List.getLast?_append]
  rfl

theorem legible_nil : Legible strict [] := ⟨by simp, .nil⟩

theorem legible_singleton (h : p.Valid strict) : Legible strict [p] where
  valid q hq := by
    rw [List.mem_singleton.mp hq]
    exact fun _ => h
  apart := by
    rw [List.filter_cons]
    split
    · exact .singleton p
    · exact .nil

theorem Legible.append {ps qs : List Piece} (hp : Legible strict ps) (hq : Legible strict qs)
    (h : ∀ a ∈ lastText? ps, ∀ b ∈ firstText? qs, Apart a b) : Legible strict (ps ++ qs) where
  valid p hmem := (List.mem_append.mp hmem).elim (hp.valid p) (hq.valid p)
  apart := by
    rw [List.filter_append]
    exact List.isChain_append.mpr ⟨hp.apart, hq.apart, h⟩

/-- Blanks and line breaks change nothing. -/
theorem Legible.cons_gap {ps : List Piece} (h : Legible strict ps) (hp : p.isText = false) :
    Legible strict (p :: ps) where
  valid q hq := by
    rcases List.mem_cons.mp hq with rfl | hq
    · exact fun ht => by rw [hp] at ht; cases ht
    · exact h.valid q hq
  apart := by
    rw [List.filter_cons_of_neg (by simp [hp])]
    exact h.apart

theorem firstText?_cons_gap (ps : List Piece) (hp : p.isText = false) :
    firstText? (p :: ps) = firstText? ps := by
  rw [firstText?, List.filter_cons_of_neg (by simp [hp])]
  rfl

theorem lastText?_cons_gap (ps : List Piece) (hp : p.isText = false) :
    lastText? (p :: ps) = lastText? ps := by
  rw [lastText?, List.filter_cons_of_neg (by simp [hp])]
  rfl

theorem firstText?_cons (ps : List Piece) (hp : p.isText = true) :
    firstText? (p :: ps) = some p := by
  rw [firstText?, List.filter_cons_of_pos hp]
  rfl

/-! ### Where pieces meet -/

/-- The signs in front of operands, and the point of a number. -/
def openers : List Char := ['(', '.', '+', '-', '!', '~']

/-- The first characters of what may follow an operand. -/
def followers : List Char :=
  ['(', ')', '[', ']', ',', ';', ':', '?', '+', '-', '*', '/', '%', '<', '>', '=', '!', '&', '|', '^']

/-- A piece that an operand may start with. -/
structure Opens (b : Piece) : Prop where
  text : b.isText = true
  loose : b.isTight = false
  head : ∀ d ∈ b.text.head?, Text.isNameChar d = true ∨ d ∈ openers

/-- A piece that may stand behind an operand. -/
structure Follows (b : Piece) : Prop where
  text : b.isText = true
  head : ∀ d ∈ b.text.head?, d ∈ followers

/-- A piece that an operand may end with. -/
structure Closes (a : Piece) : Prop where
  text : a.isText = true
  last : ∀ t ∈ a.tokens.getLast?, ∀ d ∈ followers, t.stops d = true

/-- A piece with the text of a sign. -/
structure IsSign (a : Piece) (p : Punct) : Prop where
  text : a.isText = true
  spelling : a.text = p.text.toList

theorem IsSign.spellsAll {p : Punct} (h : IsSign a p) : SpellsAll a.text [.punct p] :=
  h.spelling ▸ spellsAll_sign p

theorem IsSign.valid {p : Punct} (h : IsSign a p) : a.Valid strict :=
  valid_of_lexesAs h.spellsAll fun _ => rfl

theorem IsSign.tokens {p : Punct} (h : IsSign a p) : a.tokens = [.punct p] :=
  tokens_eq h.spellsAll

/-! The signs that pieces are made of. -/

@[simp] theorem tokens_word_leftParen : (Piece.word "(").tokens = [.punct .leftParen] :=
  IsSign.tokens ⟨rfl, rfl⟩

@[simp] theorem tokens_tight_leftParen : (Piece.tight "(").tokens = [.punct .leftParen] :=
  IsSign.tokens ⟨rfl, rfl⟩

@[simp] theorem tokens_tight_rightParen : (Piece.tight ")").tokens = [.punct .rightParen] :=
  IsSign.tokens ⟨rfl, rfl⟩

@[simp] theorem tokens_tight_leftBracket : (Piece.tight "[").tokens = [.punct .leftBracket] :=
  IsSign.tokens ⟨rfl, rfl⟩

@[simp] theorem tokens_tight_rightBracket : (Piece.tight "]").tokens = [.punct .rightBracket] :=
  IsSign.tokens ⟨rfl, rfl⟩

@[simp] theorem tokens_tight_comma : (Piece.tight ",").tokens = [.punct .comma] :=
  IsSign.tokens ⟨rfl, rfl⟩

@[simp] theorem tokens_tight_dot : (Piece.tight ".").tokens = [.punct .dot] :=
  IsSign.tokens ⟨rfl, rfl⟩

@[simp] theorem tokens_operator_question : (Piece.operator "?").tokens = [.punct .question] :=
  IsSign.tokens ⟨rfl, rfl⟩

@[simp] theorem tokens_operator_colon : (Piece.operator ":").tokens = [.punct .colon] :=
  IsSign.tokens ⟨rfl, rfl⟩

theorem glues_or_stops (p : Punct) :
    ∀ d ∈ openers, (∀ l ∈ p.text.toList.getLast?, glues l d = true) ∨ p.stops d = true := by
  have hall : Punct.longestFirst.all (fun p =>
      openers.all fun d => p.text.toList.getLast?.all (glues · d) || p.stops d) = true := by
    decide +kernel
  intro d hd
  have hd := List.all_eq_true.mp (List.all_eq_true.mp hall p p.mem_longestFirst) d hd
  rw [Bool.or_eq_true] at hd
  exact hd.imp_left fun hglues l hl => (Option.all_eq_true _ _).mp hglues l hl

/-- A sign and the operand behind it are read apart; only a point would belong to a number. -/
theorem Opens.apart {b : Piece} {p : Punct} (hb : b.Opens) (ha : IsSign a p) (hp : p ≠ .dot) :
    Apart a b := by
  intro t ht d hd
  rw [ha.tokens] at ht
  obtain rfl : .punct p = t := Option.mem_some_iff.mp ht
  rcases hb.head d hd with hname | hopener
  · exact .inr (Punct.stops_of_isNameChar (fun h => absurd h hp) hname)
  · rw [ha.spelling]
    rcases glues_or_stops p d hopener with hglues | hstops
    · exact .inl ⟨hb.loose, hglues⟩
    · exact .inr hstops

/-- An operand and what stands behind it are read apart. -/
theorem Closes.apart {b : Piece} (ha : a.Closes) (hb : b.Follows) : Apart a b :=
  fun t ht d hd => .inr (ha.last t ht d (hb.head d hd))

/-! ### Operands -/

/-- A legible row of pieces whose first text satisfies `P` and whose last one satisfies `Q`; if `strict`,
all pieces can be read. -/
structure Row (strict : Bool) (P Q : Piece → Prop) (ps : List Piece) : Prop where
  legible : Legible strict ps
  first : ∃ b, firstText? ps = some b ∧ P b
  last : ∃ a, lastText? ps = some a ∧ Q a

/-- A row of pieces that stands for an operand. -/
abbrev Operand (strict : Bool) : List Piece → Prop := Row strict Opens Closes

/-- A row of pieces that may stand behind an operand. -/
abbrev Tail (strict : Bool) : List Piece → Prop := Row strict Follows Closes

namespace Row

variable {P Q P' Q' : Piece → Prop} {ps qs : List Piece} {a : Piece} {p : Punct}

theorem singleton (h : a.Valid strict) (htext : a.isText = true) (hP : P a) (hQ : Q a) :
    Row strict P Q [a] where
  legible := legible_singleton h
  first := ⟨a, firstText?_cons [] htext, hP⟩
  last := ⟨a, by rw [lastText?, List.filter_cons_of_pos htext]; rfl, hQ⟩

theorem mono (h : Row strict P Q ps) (hP : ∀ {b : Piece}, P b → P' b) (hQ : ∀ {a : Piece}, Q a → Q' a) :
    Row strict P' Q' ps :=
  ⟨h.legible, h.first.imp fun _ => And.imp_right hP, h.last.imp fun _ => And.imp_right hQ⟩

theorem cons_gap (h : Row strict P Q ps) (ha : a.isText = false) : Row strict P Q (a :: ps) where
  legible := h.legible.cons_gap ha
  first := by rw [firstText?_cons_gap ps ha]; exact h.first
  last := by rw [lastText?_cons_gap ps ha]; exact h.last

/-- Two rows that meet where their pieces are apart. -/
theorem join (hp : Row strict P Q ps) (hq : Row strict P' Q' qs)
    (hapart : ∀ {a b : Piece}, Q a → P' b → Apart a b) : Row strict P Q' (ps ++ qs) := by
  obtain ⟨x, hx, hQx⟩ := hp.last
  obtain ⟨y, hy, hPy⟩ := hq.first
  obtain ⟨b, hb, hPb⟩ := hp.first
  obtain ⟨z, hz, hQz⟩ := hq.last
  refine ⟨hp.legible.append hq.legible ?_, ⟨b, ?_, hPb⟩, ⟨z, ?_, hQz⟩⟩
  · rw [hx, hy]
    rintro _ ⟨⟩ _ ⟨⟩
    exact hapart hQx hPy
  · rw [firstText?_append, hb]
    rfl
  · rw [lastText?_append, hz]
    rfl

/-- What may follow an operand is put behind it. -/
theorem append (hp : Row strict P Closes ps) (hq : Row strict Follows Q qs) : Row strict P Q (ps ++ qs) :=
  hp.join hq fun ha hb => ha.apart hb

/-- A sign is put in front of an operand. -/
theorem sign_cons (h : Row strict Opens Q ps) (ha : IsSign a p) (hp : p ≠ .dot) (hP : P a) :
    Row strict P Q (a :: ps) :=
  have hsign : Row strict P (IsSign · p) [a] := .singleton ha.valid ha.text hP ha
  hsign.join h fun ha hb => hb.apart ha hp

end Row

end Piece

end GlslEs
