import GlslEs.Proofs.Writing.Scan
import GlslEs.Text.Piece
import Mathlib.Data.List.Chain

/-!
# Pieces and the tokens that they spell

Written text is a row of pieces, and most of them spell tokens.  Whether the row can be read again is
decided at each place where two pieces meet: they are kept apart by a blank, or the last token of the
one ends in front of the first character of the other.  A word that no text may have stops the reading;
where it stands, what is in front of it must still be read apart.

* `Lexer.LexesAs`: what a text is read as, whatever follows that does not belong to it.
* `Piece.tokens`: the tokens of a piece that stands alone.
* `Piece.Apart`: two pieces next to each other are read as two.
* `Piece.Legible.exists_tokenize`: **pieces that are pairwise apart are read one by one**, in both styles.
-/

namespace GlslEs

namespace Lexer

variable {t : Token} {r : Option (List Token)}

/-- The tokens of a text; the token that closes a text stands for what cannot be read. -/
def closedTokens (r : Option (List Token)) : List Token := r.getD [.endOfText]

/-- A text is read as several tokens, or cannot be read, whatever follows that does not belong to the last
one. -/
structure LexesAs (text : List Char) (r : Option (List Token)) : Prop where
  nonempty : text ≠ []
  solid : ∀ c ∈ text.getLast?, Text.isBlank c = false
  lexes : ∀ (rest : List Char) (r' : Option (List Token)),
    (∀ t ∈ (closedTokens r).getLast?, ∀ c ∈ rest.head?, t.stops c = true) →
    (∀ fresh, Lexes fresh rest r') →
    ∀ fresh, Lexes fresh (text ++ rest) (r.bind fun ts => r'.map (ts ++ ·))

/-- A text is read as several tokens, whatever follows that does not belong to the last one. -/
abbrev SpellsAll (text : List Char) (ts : List Token) : Prop := LexesAs text (some ts)

theorem Spells.all {text : List Char} (h : Spells text t)
    (hsolid : ∀ c ∈ text.getLast?, Text.isBlank c = false) : SpellsAll text [t] where
  nonempty := h.nonempty
  solid := hsolid
  lexes _ _ hstops hrest := h.lexes (hstops t rfl) hrest

/-- Two texts of which the first ends in front of the second.  Where the first cannot be read, the second
must end in front of whatever ends a word. -/
theorem LexesAs.append {as bs : List Char} {r' : Option (List Token)} {c : Char}
    (ha : LexesAs as r) (hb : LexesAs bs r') (hr' : r' ≠ some []) (ht : (closedTokens r).getLast? = some t)
    (hc : bs.head? = some c) (h : t.stops c = true)
    (hnone : r = none → ∀ u ∈ (closedTokens r').getLast?, ∀ d, Token.endOfText.stops d = true → u.stops d = true) :
    LexesAs (as ++ bs) (r.bind fun ts => r'.map (ts ++ ·)) where
  nonempty := by simp [ha.nonempty]
  solid := by
    rw [List.getLast?_append_of_ne_nil _ hb.nonempty]
    exact hb.solid
  lexes rest r'' hstops hrest fresh := by
    have hstops' : ∀ u ∈ (closedTokens r').getLast?, ∀ d ∈ rest.head?, u.stops d = true := by
      cases r with
      | none => exact fun u hu d hd => hnone rfl u hu d (hstops _ rfl d hd)
      | some ts =>
        cases r' with
        | none => exact hstops
        | some us =>
          have hlast : (ts ++ us).getLast? = us.getLast? :=
            List.getLast?_append_of_ne_nil _ fun h => hr' (congrArg some h)
          exact fun u hu => hstops u (hlast.symm ▸ hu)
    have hlexes := ha.lexes _ _ (fun t' ht' c' hc' => ?_) (hb.lexes rest r'' hstops' hrest) fresh
    · rw [List.append_assoc]
      have hresult : ((r.bind fun ts => r'.map (ts ++ ·)).bind fun us => r''.map (us ++ ·)) =
          r.bind fun ts => (r'.bind fun us => r''.map (us ++ ·)).map (ts ++ ·) := by
        cases r with
        | none => rfl
        | some ts =>
          cases r' with
          | none => rfl
          | some us => cases r'' <;> simp
      rw [hresult]
      exact hlexes
    · rw [List.head?_append_of_ne_nil _ hb.nonempty, hc] at hc'
      rw [ht] at ht'
      rwa [← Option.mem_some_iff.mp ht', ← Option.mem_some_iff.mp hc']

theorem SpellsAll.append {as bs : List Char} {ts : List Token} {c : Char} (ha : SpellsAll as ts)
    (hb : LexesAs bs r) (hr : r ≠ some []) (ht : ts.getLast? = some t) (hc : bs.head? = some c)
    (h : t.stops c = true) : LexesAs (as ++ bs) (r.map (ts ++ ·)) :=
  LexesAs.append ha hb hr ht hc h fun hnone => by cases hnone

/-- What is read ends in front of whatever ends a word. -/
def EndsLikeWord (r : Option (List Token)) : Prop :=
  ∃ t, (closedTokens r).getLast? = some t ∧ ∀ d, Token.endOfText.stops d = true → t.stops d = true

theorem endsLikeWord_none : EndsLikeWord none := ⟨.endOfText, rfl, fun _ h => h⟩

theorem EndsLikeWord.ne_nil (h : EndsLikeWord r) : r ≠ some [] := by
  rintro rfl
  obtain ⟨t, ht, -⟩ := h
  cases ht

theorem EndsLikeWord.bind {r' : Option (List Token)} (h : EndsLikeWord r') (r : Option (List Token)) :
    EndsLikeWord (r.bind fun ts => r'.map (ts ++ ·)) := by
  cases r with
  | none => exact endsLikeWord_none
  | some ts =>
    cases r' with
    | none => exact endsLikeWord_none
    | some us =>
      obtain ⟨t, ht, hstops⟩ := h
      have hne : us ≠ [] := by
        rintro rfl
        cases ht
      exact ⟨t, (List.getLast?_append_of_ne_nil ts hne).trans ht, hstops⟩

/-- Every token ends in front of a blank. -/
theorem stops_blank (t : Token) : t.stops ' ' = true ∧ t.stops '\n' = true := by
  cases t with
  | punct p => cases p <;> decide
  | _ => exact ⟨rfl, rfl⟩

end Lexer

namespace Piece

variable {p : Piece} {r : Option (List Token)} {cs : List Char} {style : Style} {ps : List Piece}
  {last : Option Char}

open Lexer

/-! ### Rows of pieces -/

/-- The text of a piece; only line breaks and blanks have none. -/
def text : Piece → List Char
  | .word text | .tight text | .operator text => text.toList
  | _ => []

/-- Whether a piece has a text. -/
def isText : Piece → Bool
  | .word _ | .tight _ | .operator _ => true
  | _ => false

/-- Whether a piece is never kept apart from what stands in front of it. -/
def isTight : Piece → Bool
  | .tight _ => true
  | _ => false

/-- What a piece that stands alone is read as. -/
def reading (p : Piece) : Option (List Token) :=
  (tokensOf? (String.ofList p.text)).map List.dropLast

theorem reading_eq (h : LexesAs p.text r) : p.reading = r := by
  have hlexes : Lexes true (String.ofList p.text).toList r := by
    have h := h.lexes [] (some []) (fun _ _ c hc => by cases hc) Lexes.nil true
    rw [List.append_nil, ← String.toList_ofList (l := p.text)] at h
    cases r with
    | none => exact h
    | some ts => simpa using h
  rw [reading, tokensOf?_of_lexes hlexes]
  cases r <;> simp

/-- The tokens of a piece that stands alone. -/
def tokens (p : Piece) : List Token := closedTokens p.reading

theorem tokens_eq {ts : List Token} (h : SpellsAll p.text ts) : p.tokens = ts := by
  rw [tokens, reading_eq h]
  rfl

/-- The text of a piece is read alike wherever it stands, and if `strict` it can be read. -/
structure Valid (strict : Bool) (p : Piece) : Prop where
  lexes : LexesAs p.text p.reading
  isSome : strict = true → p.reading.isSome = true

theorem valid_of_lexesAs {strict : Bool} (h : LexesAs p.text r)
    (hstrict : strict = true → r.isSome = true) : p.Valid strict := by
  have hr := reading_eq h
  exact ⟨hr ▸ h, hr ▸ hstrict⟩

theorem reading_of_not_isText (h : p.isText = false) : p.reading = some [] := by
  cases p <;> first | rfl | cases h

theorem tokens_eq_nil (h : p.isText = false) : p.tokens = [] := by
  rw [tokens, reading_of_not_isText h]
  rfl

/-- Two pieces next to each other are read as two: a blank is put between them, or the last token of the
first one ends in front of the second. -/
def Apart (a b : Piece) : Prop :=
  ∀ t ∈ a.tokens.getLast?, ∀ d ∈ b.text.head?,
    (b.isTight = false ∧ ∀ l ∈ a.text.getLast?, glues l d = true) ∨ t.stops d = true

/-- The tokens of a row of pieces. -/
def tokensOf (ps : List Piece) : List Token := ps.flatMap tokens

@[simp] theorem tokensOf_nil : tokensOf [] = [] := rfl

@[simp] theorem tokensOf_cons (p : Piece) (ps : List Piece) :
    tokensOf (p :: ps) = p.tokens ++ tokensOf ps := List.flatMap_cons

@[simp] theorem tokensOf_append (ps qs : List Piece) :
    tokensOf (ps ++ qs) = tokensOf ps ++ tokensOf qs := List.flatMap_append

/-- What a row of pieces is read as. -/
def readingOf : List Piece → Option (List Token)
  | [] => some []
  | p :: ps => p.reading.bind fun ts => (readingOf ps).map (ts ++ ·)

/-- A row of pieces that are read one by one, and can all be read if `strict`. -/
structure Legible (strict : Bool) (ps : List Piece) : Prop where
  valid : ∀ p ∈ ps, p.isText = true → p.Valid strict
  apart : (ps.filter isText).IsChain Apart

/-! ### Rendering -/

/-- Blanks and line breaks. -/
def IsGap (cs : List Char) : Prop := ∀ c ∈ cs, c = ' ' ∨ c = '\n'

theorem IsGap.isBlank (h : IsGap cs) : ∀ b ∈ cs, Text.isBlank b = true := by
  intro b hb
  rcases h b hb with rfl | rfl <;> decide

theorem IsGap.stops (h : IsGap cs) (t : Token) : ∀ b ∈ cs, t.stops b = true := by
  intro b hb
  rcases h b hb with rfl | rfl
  · exact (stops_blank t).1
  · exact (stops_blank t).2

theorem isGap_separator (last : Option Char) (text : List Char) : IsGap (separator last text) := by
  unfold separator IsGap
  repeat' split
  all_goals simp

theorem isGap_gap (last : Option Char) : IsGap (gap last) := by
  unfold gap IsGap
  split <;> simp

theorem isGap_lineStart (indent : Nat) (last : Option Char) : IsGap (lineStart indent last) := by
  intro b hb
  rcases List.mem_append.mp hb with hb | hb
  · split at hb
    · cases hb
    · exact .inr (List.mem_singleton.mp hb)
  · exact .inl (List.eq_of_mem_replicate hb)

/-- What a row of pieces is read as, and that what stands in front of the row ends there. -/
def Rendered (style : Style) (ps : List Piece) : Prop :=
  ∀ (indent : Nat) (last : Option Char),
    (∀ fresh, Lexes fresh (renderFrom style indent last ps) (readingOf ps)) ∧
    ∀ a : Piece, LexesAs a.text a.reading → a.text.getLast? = last →
      (a :: ps.filter isText).IsChain Apart → ∀ t ∈ a.tokens.getLast?,
        ∀ d ∈ (renderFrom style indent last ps).head?, t.stops d = true

theorem renderFrom_cons (style : Style) (indent : Nat) (last : Option Char) (p : Piece) (ps : List Piece) :
    renderFrom style indent last (p :: ps) =
      p.chars style indent last ++ renderFrom style (p.indentAfter indent)
        ((p.chars style indent last).getLast?.or last) ps := rfl

/-- A piece with a text, between blanks. -/
theorem rendered_text (hm : LexesAs p.text p.reading)
    (htext : p.isText = true) (ih : Rendered style ps)
    (hchain : (p :: ps.filter isText).IsChain Apart)
    (hchars : ∀ indent last, ∃ before after,
      p.chars style indent last = before ++ (p.text ++ after) ∧ IsGap before ∧ IsGap after ∧
        (before = [] → p.isTight = false → ∀ l ∈ last, Text.isBlank l = false →
          ∀ d ∈ p.text.head?, glues l d = false)) :
    Rendered style (p :: ps) := by
  intro indent last
  obtain ⟨before, after, hchars, hbefore, hafter, hglues⟩ := hchars indent last
  rw [renderFrom_cons, hchars, readingOf]
  generalize p.indentAfter indent = indent'
  obtain ⟨c, cs, hcs⟩ := List.exists_cons_of_ne_nil hm.nonempty
  -- The rest is read behind the text: either a blank stands there or the next piece is apart.
  have hlexes : ∀ fresh, Lexes fresh (p.text ++ (after ++ renderFrom style indent'
      ((before ++ (p.text ++ after)).getLast?.or last) ps))
      (p.reading.bind fun ts => (readingOf ps).map (ts ++ ·)) := by
    cases after with
    | nil =>
      have hlast : (before ++ (p.text ++ [])).getLast?.or last = p.text.getLast? := by
        rw [List.append_nil, List.getLast?_append_of_ne_nil _ hm.nonempty, hcs, List.getLast?_cons]
        rfl
      rw [hlast]
      exact hm.lexes _ _ ((ih indent' _).2 p hm rfl hchain) (ih indent' _).1
    | cons b bs =>
      refine hm.lexes _ _ ?_ fun fresh => Lexes.blanks hafter.isBlank (ih indent' _).1
      intro t ht d hd
      obtain rfl : b = d := Option.mem_some_iff.mp hd
      exact hafter.stops t b List.mem_cons_self
  rw [List.append_assoc, List.append_assoc]
  refine ⟨fun fresh => Lexes.blanks hbefore.isBlank hlexes, ?_⟩
  intro a ha hlast hapart t ht d hd
  cases before with
  | cons b bs =>
    obtain rfl : b = d := Option.mem_some_iff.mp hd
    exact hbefore.stops t b List.mem_cons_self
  | nil =>
    have hd : d ∈ p.text.head? := by
      rw [List.nil_append, List.head?_append_of_ne_nil _ hm.nonempty] at hd
      exact hd
    rw [List.filter_cons_of_pos htext] at hapart
    rcases hapart.rel t ht d hd with ⟨htight, hglue⟩ | hstops
    · obtain ⟨l, hl⟩ : ∃ l, a.text.getLast? = some l := by
        obtain ⟨x, xs, hxs⟩ := List.exists_cons_of_ne_nil ha.nonempty
        exact ⟨_, by rw [hxs, List.getLast?_cons]⟩
      have hnot := hglues rfl htight l (hlast ▸ hl) (ha.solid l hl) d hd
      rw [hglue l hl] at hnot
      cases hnot
    · exact hstops

/-- Blanks, line breaks and what only changes the indentation. -/
theorem rendered_gap (htext : p.isText = false) (ih : Rendered style ps)
    (hchars : ∀ indent last, IsGap (p.chars style indent last)) : Rendered style (p :: ps) := by
  intro indent last
  have hreading : readingOf (p :: ps) = readingOf ps := by
    rw [readingOf, reading_of_not_isText htext]
    cases readingOf ps <;> rfl
  rw [renderFrom_cons, hreading]
  have hgap := hchars indent last
  generalize p.chars style indent last = cs at hgap
  refine ⟨fun fresh => Lexes.blanks hgap.isBlank (ih _ _).1, ?_⟩
  intro a ha hlast hapart t ht d hd
  rw [List.filter_cons_of_neg (by simp [htext])] at hapart
  cases cs with
  | nil => exact (ih _ _).2 a ha hlast hapart t ht d hd
  | cons b bs =>
    obtain rfl : b = d := Option.mem_some_iff.mp hd
    exact hgap.stops t b List.mem_cons_self

theorem separator_eq_nil {text : List Char}
    (h : separator last text = []) : ∀ l ∈ last, ∀ d ∈ text.head?, glues l d = false := by
  rintro l rfl d hd
  cases text with
  | nil => cases hd
  | cons c cs =>
    obtain rfl : c = d := Option.mem_some_iff.mp hd
    simp only [separator] at h
    exact Bool.eq_false_iff.mpr fun hglues => by simp [hglues] at h

theorem gap_eq_nil (h : gap last = []) : ∀ l ∈ last, Text.isBlank l = true := by
  rintro l rfl
  unfold gap at h
  split at h
  case isTrue hl =>
    simp only [Option.some.injEq, Bool.or_eq_true, decide_eq_true_eq] at hl
    rcases hl with rfl | rfl <;> decide
  case isFalse => cases h

/-- A piece with a text is that text between blanks. -/
theorem chars_eq_text (htext : p.isText = true) (style : Style) (indent : Nat)
    (last : Option Char) :
    ∃ before after, p.chars style indent last = before ++ (p.text ++ after) ∧ IsGap before ∧
      IsGap after ∧ (before = [] → p.isTight = false → ∀ l ∈ last, Text.isBlank l = false →
        ∀ d ∈ p.text.head?, glues l d = false) := by
  have hnil : IsGap [] := by simp [IsGap]
  have hword (text : String) : ∃ before after,
      separator last text.toList ++ text.toList = before ++ (text.toList ++ after) ∧
        IsGap before ∧ IsGap after ∧ (before = [] → ∀ l ∈ last, Text.isBlank l = false →
          ∀ d ∈ text.toList.head?, glues l d = false) :=
    ⟨_, [], by rw [List.append_nil], isGap_separator last text.toList, hnil,
      fun h l hl _ => separator_eq_nil h l hl⟩
  cases p with
  | word text =>
    obtain ⟨before, after, h, hbefore, hafter, hglues⟩ := hword text
    exact ⟨before, after, h, hbefore, hafter, fun hb _ => hglues hb⟩
  | tight text =>
    exact ⟨[], [], by simp [chars, Piece.text], hnil, hnil, fun _ h => by cases h⟩
  | operator text =>
    cases style with
    | compact =>
      obtain ⟨before, after, h, hbefore, hafter, hglues⟩ := hword text
      exact ⟨before, after, h, hbefore, hafter, fun hb _ => hglues hb⟩
    | beautified =>
      refine ⟨gap last, [' '], ?_, isGap_gap last, by simp [IsGap], ?_⟩
      · simp [chars, Piece.text]
      · intro h _ l hl hsolid
        rw [gap_eq_nil h l hl] at hsolid
        cases hsolid
  | space | line | indent | outdent => cases htext

theorem isGap_chars (htext : p.isText = false) (style : Style) (indent : Nat)
    (last : Option Char) : IsGap (p.chars style indent last) := by
  have hnil : IsGap [] := by simp [IsGap]
  cases p with
  | word text | tight text | operator text => cases htext
  | space =>
    simp only [chars]
    split
    · exact isGap_gap last
    · exact hnil
  | line =>
    simp only [chars]
    split
    · exact isGap_lineStart indent last
    · exact hnil
  | indent | outdent => exact hnil

variable {strict : Bool}

theorem Legible.of_cons (h : Legible strict (p :: ps)) :
    Legible strict ps where
  valid x hx := h.valid x (List.mem_cons_of_mem p hx)
  apart := by
    have hapart := h.apart
    rw [List.filter_cons] at hapart
    split at hapart
    · exact hapart.tail
    · exact hapart

theorem Legible.rendered (h : Legible strict ps) (style : Style) : Rendered style ps := by
  induction ps with
  | nil =>
    intro indent last
    have hgap : IsGap (renderFrom style indent last []) := by
      simp only [renderFrom]
      split <;> simp [IsGap]
    refine ⟨fun fresh => ?_, fun a _ _ _ t _ d hd => hgap.stops t d (List.mem_of_mem_head? hd)⟩
    have hlexes : Lexes fresh (renderFrom style indent last [] ++ []) (some []) :=
      Lexes.blanks hgap.isBlank Lexes.nil
    rwa [List.append_nil] at hlexes
  | cons p ps ih =>
    by_cases htext : p.isText = true
    · refine rendered_text (h.valid p List.mem_cons_self htext).lexes htext (ih h.of_cons) ?_
        (chars_eq_text htext style)
      have hapart := h.apart
      rwa [List.filter_cons_of_pos htext] at hapart
    · rw [Bool.not_eq_true] at htext
      exact rendered_gap htext (ih h.of_cons) (isGap_chars htext style)

/-- Where every piece can be read, the row has the tokens of its pieces. -/
theorem Legible.readingOf_eq (h : Legible true ps) : readingOf ps = some (tokensOf ps) := by
  induction ps with
  | nil => rfl
  | cons p ps ih =>
    have hp : p.reading = some p.tokens := by
      by_cases htext : p.isText = true
      · obtain ⟨ts, hts⟩ := Option.isSome_iff_exists.mp ((h.valid p List.mem_cons_self htext).isSome rfl)
        rw [tokens, hts]
        rfl
      · rw [Bool.not_eq_true] at htext
        rw [reading_of_not_isText htext, tokens_eq_nil htext]
    rw [readingOf, hp, ih h.of_cons]
    rfl

/-- A row of pieces that can all be read is read as its tokens. -/
theorem Legible.exists_tokenize (h : Legible true ps) (style : Style) :
    ∃ ls, tokenize (render style ps) = .ok ls ∧
      ls.map (·.token) = tokensOf ps ++ [.endOfText] := by
  refine exists_tokenize_of_lexes ?_
  rw [Piece.render, String.toList_ofList, ← h.readingOf_eq]
  exact (h.rendered style 0 none).1 true

end Piece

end GlslEs
