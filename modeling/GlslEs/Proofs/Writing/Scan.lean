import GlslEs.Constant.Writer
import GlslEs.Proofs.Reading.Lexer

/-!
# Text and its tokens

`Lexer.Lexes` says which tokens a text has, or that it cannot be read, piece by piece and without
counting places.  A token is read from its own text when the character behind it does not belong to it;
`Token.stops` says which characters do not.

* `Lexer.tokensOf?_of_lexes`: **what a text is read as**.
* `Lexer.Spells`: a text is read as a token, whatever follows that does not belong to it.
* `Lexer.spells_word`, `Lexer.spells_punct`, `Lexer.spells_int`, `Lexer.spells_uint`,
  `Lexer.spells_float`: the texts of tokens.
-/

namespace GlslEs

/-! ### Scanning -/

namespace Lexer

variable {fresh : Bool} {cs : List Char} {r : Option (List Token)} {source : String}

/-- The tokens of a piece. -/
def Piece.tokens : Piece → List Token
  | .token t => [t]
  | .directive (some t) => [t]
  | .directive none | .blank => []

theorem Piece.map_token_lexemes (p : Piece) (loc : Location) :
    (p.lexemes loc).map (·.token) = p.tokens := by
  cases p with
  | blank | token t => rfl
  | directive t => cases t <;> rfl

/-- What a text is read as: its tokens, or nothing if it cannot be read.  No token stands in front of it
on its line if `fresh`. -/
inductive Lexes : Bool → List Char → Option (List Token) → Prop
  | nil (fresh : Bool) : Lexes fresh [] (some [])
  | error {fresh : Bool} {c : Char} {cs : List Char} {problem : SyntaxProblem}
      (hpiece : nextPiece fresh c cs = .error problem) : Lexes fresh (c :: cs) none
  | step {fresh : Bool} {c : Char} {cs : List Char} {piece : Piece} {n : Nat} {r : Option (List Token)}
      (hpiece : nextPiece fresh c cs = .ok (piece, n)) (hpos : 0 < n)
      (hrest : Lexes (freshAfter fresh piece ((c :: cs).take n)) ((c :: cs).drop n) r) :
      Lexes fresh (c :: cs) (r.map (piece.tokens ++ ·))

/-- The tokens that a text is read as. -/
def tokensOf? (source : String) : Option (List Token) :=
  (tokenize source).toOption.map (·.map (·.token))

theorem toOption_lexemes (h : Lexes fresh cs r) (fuel : Nat) (hfuel : cs.length ≤ fuel) (loc : Location) :
    (lexemes fuel loc fresh cs).toOption.map (·.map (·.token)) = r.map (· ++ [.endOfText]) := by
  induction h generalizing fuel loc with
  | nil fresh => cases fuel <;> rfl
  | @error fresh c cs problem hpiece =>
    cases fuel with
    | zero => simp at hfuel
    | succ fuel =>
      unfold lexemes
      simp only [hpiece]
      rfl
  | @step fresh c cs piece n r hpiece hpos hrest ih =>
    cases fuel with
    | zero => simp at hfuel
    | succ fuel =>
      have hlength : ((c :: cs).drop n).length ≤ fuel := by
        simp only [List.length_drop, List.length_cons] at hfuel ⊢
        omega
      have ih := ih fuel hlength (loc.advance ((c :: cs).take n))
      unfold lexemes
      simp only [hpiece]
      generalize lexemes fuel _ _ _ = rest at ih ⊢
      cases rest with
      | error e =>
        cases r with
        | none => rfl
        | some ts => cases ih
      | ok ls =>
        cases r with
        | none => cases ih
        | some ts =>
          have htokens : ls.map (·.token) = ts ++ [.endOfText] := Option.some.inj ih
          show some ((piece.lexemes loc ++ ls).map (·.token)) = some (piece.tokens ++ ts ++ [.endOfText])
          rw [List.map_append, Piece.map_token_lexemes, htokens, List.append_assoc]

/-- **What a text is read as**, with the token that closes it. -/
theorem tokensOf?_of_lexes (h : Lexes true source.toList r) : tokensOf? source = r.map (· ++ [.endOfText]) :=
  toOption_lexemes h _ (Nat.le_refl _) _

theorem exists_tokenize_of_lexes {ts : List Token} (h : Lexes true source.toList (some ts)) :
    ∃ ls, tokenize source = .ok ls ∧ ls.map (·.token) = ts ++ [.endOfText] := by
  have htokens := tokensOf?_of_lexes h
  unfold tokensOf? at htokens
  cases hls : tokenize source with
  | error e =>
    rw [hls] at htokens
    cases htokens
  | ok ls =>
    rw [hls] at htokens
    exact ⟨ls, rfl, Option.some.inj htokens⟩

theorem Lexes.blank {c : Char} (hc : Text.isBlank c = true) (h : ∀ fresh, Lexes fresh cs r) :
    Lexes fresh (c :: cs) r := by
  have hpiece : nextPiece fresh c cs = .ok (.blank, 1) := by
    unfold nextPiece
    exact if_pos hc
  have hlexes := Lexes.step hpiece Nat.one_pos (h _)
  rwa [show Piece.blank.tokens = [] from rfl, show r.map ([] ++ ·) = r by cases r <;> rfl] at hlexes

theorem Lexes.blanks {bs : List Char} (hbs : ∀ b ∈ bs, Text.isBlank b = true)
    (h : ∀ fresh, Lexes fresh cs r) : Lexes fresh (bs ++ cs) r := by
  induction bs generalizing fresh with
  | nil => exact h fresh
  | cons b bs ih =>
    simp only [List.mem_cons, forall_eq_or_imp] at hbs
    exact Lexes.blank hbs.1 fun fresh => ih hbs.2

end Lexer

/-! ### Where tokens end -/

/-- Whether a sign ends in front of a character: no longer sign, comment or number starts with the
two. -/
def Punct.stops (p : Punct) (c : Char) : Bool :=
  !longestFirst.any (fun q => (p.text.toList ++ [c]).isPrefixOf q.text.toList) &&
    !(p == .slash && (c == '/' || c == '*')) && !(p == .dot && c.isDigit)

/-- Whether a token ends in front of a character. -/
def Token.stops (t : Token) (c : Char) : Bool :=
  match t with
  | .punct p => p.stops c
  | .int _ | .uint _ | .float _ => !Text.isNameChar c && c != '.'
  | _ => !Text.isNameChar c

namespace Lexer

variable {c : Char} {fresh : Bool} {cs : List Char}

/-- A text is read as a token, whatever follows that does not belong to the token. -/
structure Spells (text : List Char) (t : Token) : Prop where
  nonempty : text ≠ []
  read : ∀ (fresh : Bool) (rest : List Char), (∀ c ∈ rest.head?, t.stops c = true) →
    ∀ c cs, text ++ rest = c :: cs → nextPiece fresh c cs = .ok (.token t, text.length)

/-- A token in front of a text. -/
theorem Spells.lexes {text rest : List Char} {t : Token} {r : Option (List Token)} (h : Spells text t)
    (hstops : ∀ c ∈ rest.head?, t.stops c = true) (hrest : ∀ fresh, Lexes fresh rest r)
    (fresh : Bool) : Lexes fresh (text ++ rest) (r.map (t :: ·)) := by
  obtain ⟨c, cs, htext⟩ := List.exists_cons_of_ne_nil h.nonempty
  have hpiece := h.read fresh rest hstops c (cs ++ rest) (by rw [htext]; rfl)
  have hlexes : Lexes fresh (c :: (cs ++ rest)) (r.map ([t] ++ ·)) := by
    refine Lexes.step hpiece (List.length_pos_iff.mpr h.nonempty) ?_
    have hdrop : (c :: (cs ++ rest)).drop text.length = rest := by
      rw [htext]
      exact List.drop_left
    rw [hdrop]
    exact hrest _
  rw [htext]
  exact hlexes

theorem range_of_isDigit (h : c.isDigit = true) : 0x30 ≤ c.toNat ∧ c.toNat ≤ 0x39 := by
  delta Char.isDigit at h
  simp only [Bool.and_eq_true, decide_eq_true_eq, UInt32.le_iff_toNat_le, ge_iff_le] at h
  exact h

theorem range_of_isLetter (h : Text.isLetter c = true) :
    (0x41 ≤ c.toNat ∧ c.toNat ≤ 0x5A) ∨ (0x61 ≤ c.toNat ∧ c.toNat ≤ 0x7A) ∨ c = '_' := by
  delta Text.isLetter Char.isAlpha Char.isUpper Char.isLower at h
  simp only [Bool.or_eq_true, Bool.and_eq_true, decide_eq_true_eq, UInt32.le_iff_toNat_le,
    ge_iff_le, beq_iff_eq, or_assoc] at h
  exact h

theorem isBlank_of_isNameChar (h : Text.isNameChar c = true) : Text.isBlank c = false := by
  have hrange : (0x30 ≤ c.toNat ∧ c.toNat ≤ 0x39) ∨ (0x41 ≤ c.toNat ∧ c.toNat ≤ 0x7A) := by
    rcases Bool.or_eq_true _ _ ▸ h with h | h
    · rcases range_of_isLetter h with h | h | rfl
      · omega
      · omega
      · decide
    · exact .inl (range_of_isDigit h)
  simp only [Text.isBlank, Bool.or_eq_false_iff, Bool.and_eq_false_iff, decide_eq_false_iff_not,
    beq_eq_false_iff_ne]
  omega

/-- What is neither a blank nor a comment nor a directive is a token. -/
theorem nextPiece_eq_map (hblank : Text.isBlank c = false)
    (hhash : c ≠ '#') (hslash : c = '/' → ∀ d ∈ cs.head?, d ≠ '/' ∧ d ≠ '*') :
    nextPiece fresh c cs = (readToken c cs).map fun (token, length) => (.token token, length) := by
  unfold nextPiece
  rw [hblank]
  split
  · contradiction
  · split
    · exact absurd rfl (hslash rfl _ rfl).1
    · exact absurd rfl (hslash rfl _ rfl).2
    · exact absurd rfl hhash
    · rfl

theorem nextPiece_of_readToken {t : Token} {n : Nat} (hblank : Text.isBlank c = false)
    (hhash : c ≠ '#') (hslash : c = '/' → ∀ d ∈ cs.head?, d ≠ '/' ∧ d ≠ '*')
    (h : readToken c cs = .ok (t, n)) : nextPiece fresh c cs = .ok (.token t, n) := by
  rw [nextPiece_eq_map hblank hhash hslash, h]
  rfl

theorem takeWhile_append_stop {α : Type} {p : α → Bool} {xs rest : List α}
    (hxs : ∀ x ∈ xs, p x = true) (hrest : ∀ x ∈ rest.head?, p x = false) :
    (xs ++ rest).takeWhile p = xs := by
  rw [List.takeWhile_append_of_pos hxs]
  cases rest with
  | nil => simp
  | cons x rest => simp [hrest x rfl]

/-! ### Words -/

variable {strict : Bool} {word : String}

theorem Wordlike.forall_isNameChar (h : Wordlike strict word) :
    ∀ c ∈ word.toList, Text.isNameChar c = true := by
  obtain ⟨c, cs, hword, hletter, hcs⟩ := h.chars
  rw [hword]
  simp only [List.mem_cons, forall_eq_or_imp]
  exact ⟨by simp [Text.isNameChar, hletter], List.all_eq_true.mp hcs⟩

theorem readToken_wordlike (h : Wordlike strict word) {rest : List Char}
    (hword : word.toList ++ rest = c :: cs) (hrest : ∀ d ∈ rest.head?, Text.isNameChar d = false) :
    readToken c cs = if Token.isReservedWord word then .error (.reservedWord word)
      else if hasDoubleUnderscore word.toList then .error (.doubleUnderscore word)
      else .ok (Token.ofWord word, word.toList.length) := by
  obtain ⟨c', cs', hchars, hletter, -⟩ := h.chars
  have hc : c' = c := by
    rw [hchars] at hword
    exact (List.cons.inj hword).1
  have htake : (c :: cs).takeWhile Text.isNameChar = word.toList := by
    rw [← hword]
    exact takeWhile_append_stop h.forall_isNameChar hrest
  unfold readToken
  rw [← hc, if_pos hletter, hc]
  unfold readWord
  simp only [htake, String.ofList_toList]

/-- What starts like a word is a token. -/
theorem nextPiece_wordlike (h : Wordlike strict word) {rest : List Char}
    (hword : word.toList ++ rest = c :: cs) :
    nextPiece fresh c cs = (readToken c cs).map fun (token, length) => (.token token, length) := by
  obtain ⟨c', cs', hchars, hletter, -⟩ := h.chars
  obtain rfl : c' = c := by
    rw [hchars] at hword
    exact (List.cons.inj hword).1
  have hname : Text.isNameChar c' = true := by simp [Text.isNameChar, hletter]
  refine nextPiece_eq_map (isBlank_of_isNameChar hname) ?_ ?_
  · rintro rfl
    cases hname
  · rintro rfl
    cases hname

/-- The tokens of words end in front of what no name goes on with. -/
theorem stops_ofWord (word : String) (hc : (Token.ofWord word).stops c = true) :
    Text.isNameChar c = false := by
  unfold Token.ofWord at hc
  repeat' split at hc
  all_goals simpa [Token.stops] using hc

theorem spells_word (h : Wordlike true word) : Spells word.toList (Token.ofWord word) where
  nonempty := by
    obtain ⟨c, cs, hword, -⟩ := h.chars
    simp [hword]
  read fresh rest hrest c cs hcs := by
    rw [nextPiece_wordlike h hcs, readToken_wordlike h hcs fun d hd => stops_ofWord word (hrest d hd)]
    obtain ⟨hreserved, hunderscores⟩ := h.allowed rfl
    simp only [hreserved, hunderscores, Bool.false_eq_true, if_false]
    rfl

/-! ### Signs -/

end Lexer

namespace Punct

theorem mem_longestFirst (p : Punct) : p ∈ longestFirst := by
  cases p <;> decide

theorem longestFirst_eq (p : Punct) : longestFirst =
    longestFirst.takeWhile (· != p) ++ p :: (longestFirst.dropWhile (· != p)).tail := by
  cases p <;> rfl

/-- No sign in front of another one in the list is the start of it. -/
theorem not_isPrefixOf_of_mem_takeWhile (p : Punct) :
    ∀ q ∈ longestFirst.takeWhile (· != p), q.text.toList.isPrefixOf p.text.toList = false := by
  cases p <;> decide

/-- What a sign starts with. -/
theorem head_text (p : Punct) : ∃ c cs, p.text.toList = c :: cs ∧ Text.isBlank c = false ∧ c ≠ '#' ∧
    Text.isLetter c = false ∧ c.isDigit = false ∧ (c = '/' → p = .slash ∨ p = .slashEqual) ∧
    (c = '.' → p = .dot) := by
  cases p <;> exact ⟨_, _, rfl, by decide⟩

end Punct

namespace Lexer

variable {rest cs : List Char} {n : Nat} {c : Char} {fresh : Bool}

theorem punct?_text {p : Punct} (hrest : ∀ c ∈ rest.head?, p.stops c = true) :
    punct? (p.text.toList ++ rest) = some p := by
  unfold punct?
  rw [List.find?_eq_some_iff_append]
  refine ⟨by simp, Punct.longestFirst.takeWhile (· != p), _, p.longestFirst_eq, fun q hq => ?_⟩
  have hshort := p.not_isPrefixOf_of_mem_takeWhile q hq
  rw [Bool.not_eq_true']
  refine Bool.eq_false_iff.mpr fun hprefix => ?_
  rw [List.isPrefixOf_iff_prefix] at hprefix
  -- The other sign is longer, so it goes on with the next character.
  rcases List.prefix_or_prefix_of_prefix hprefix (List.prefix_append p.text.toList rest) with h | h
  · rw [List.isPrefixOf_iff_prefix.mpr h] at hshort
    cases hshort
  · obtain ⟨tail, htail⟩ := h
    cases tail with
    | nil =>
      rw [List.append_nil] at htail
      rw [htail, List.isPrefixOf_iff_prefix.mpr (List.prefix_refl _)] at hshort
      cases hshort
    | cons c tail =>
      rw [← htail, List.prefix_append_right_inj] at hprefix
      obtain ⟨more, rfl⟩ := hprefix
      have hstops := hrest c rfl
      simp only [Punct.stops, Bool.and_eq_true, Bool.not_eq_true', List.any_eq_false] at hstops
      refine hstops.1.1 q q.mem_longestFirst ?_
      rw [List.isPrefixOf_iff_prefix, ← htail]
      exact ⟨tail, by simp⟩

theorem spells_punct (p : Punct) : Spells p.text.toList (.punct p) where
  nonempty := by
    obtain ⟨c, cs, htext, -⟩ := p.head_text
    simp [htext]
  read fresh rest hrest c cs hcs := by
    obtain ⟨c', tail, htext, hblank, hhash, hletter, hdigit, hslash, hdot⟩ := p.head_text
    obtain ⟨rfl, rfl⟩ : c' = c ∧ tail ++ rest = cs := by
      rw [htext] at hcs
      exact List.cons.inj hcs
    have hpunct : punct? (c' :: (tail ++ rest)) = some p := by
      rw [← hcs]
      exact punct?_text hrest
    refine nextPiece_of_readToken hblank hhash ?_ ?_
    · -- No comment starts here.
      intro hc d hd
      rcases hslash hc with rfl | rfl
      · obtain rfl : tail = [] := (List.cons.inj htext).2.symm
        have hd := hrest d hd
        simp only [Token.stops, Punct.stops, Bool.and_eq_true, Bool.not_eq_true',
          Bool.and_eq_false_imp, Bool.or_eq_false_iff, beq_eq_false_iff_ne] at hd
        exact hd.1.2 rfl
      · obtain rfl : tail = ['='] := (List.cons.inj htext).2.symm
        obtain rfl : '=' = d := Option.mem_some_iff.mp hd
        decide
    · have hnumber : (c'.isDigit || (c' == '.' && ((tail ++ rest).head?.map Char.isDigit).getD false)) = false := by
        rw [hdigit, Bool.false_or, Bool.and_eq_false_imp]
        intro hc
        obtain rfl := hdot (beq_iff_eq.mp hc)
        obtain rfl : tail = [] := (List.cons.inj htext).2.symm
        cases rest with
        | nil => rfl
        | cons d rest =>
          have hd := hrest d rfl
          simp only [Token.stops, Punct.stops, Bool.and_eq_true, Bool.not_eq_true',
            Bool.and_eq_false_imp] at hd
          exact hd.2 rfl
      unfold readToken
      rw [if_neg (by simp [hletter]), if_neg (by rw [hnumber]; exact Bool.false_ne_true), hpunct]
      rfl

/-! ### Numbers -/

theorem foldl_digitValue (hcs : ∀ c ∈ cs, c.isDigit = true) (n : Nat) :
    cs.foldl (fun n c => n * 10 + Decimal.digitValue c) n = Nat.ofDigitChars 10 cs n := by
  induction cs generalizing n with
  | nil => rfl
  | cons c cs ih =>
    simp only [List.mem_cons, forall_eq_or_imp] at hcs
    have hvalue : Decimal.digitValue c = c.toNat - '0'.toNat := if_pos hcs.1
    rw [List.foldl_cons, ih hcs.2, hvalue, Nat.ofDigitChars_cons, Nat.mul_comm]

theorem isDigit_of_mem_toDigits : ∀ c ∈ Nat.toDigits 10 n, c.isDigit = true :=
  fun _ hc => Nat.isDigit_of_mem_toDigits (by decide) (by decide) hc

theorem ofDigits_toDigits (n : Nat) : Decimal.ofDigits 10 (Nat.toDigits 10 n) = n := by
  rw [Decimal.ofDigits, foldl_digitValue isDigit_of_mem_toDigits]
  exact Nat.ofDigitChars_toDigits (by decide) (by decide)

/-- The digits of a number start with a zero only if there is nothing else. -/
theorem toDigits_eq_zero_cons (h : Nat.toDigits 10 n = '0' :: cs) : cs = [] := by
  induction n using Nat.strongRecOn generalizing cs with
  | ind n ih =>
    rw [Nat.toDigits_eq_if (by decide)] at h
    split at h
    · exact (List.cons.inj h).2.symm
    · rename_i hn
      cases hquot : Nat.toDigits 10 (n / 10) with
      | nil => exact absurd hquot Nat.toDigits_ne_nil
      | cons d ds =>
        rw [hquot, List.cons_append] at h
        obtain ⟨rfl, -⟩ := List.cons.inj h
        obtain rfl := ih (n / 10) (by omega) hquot
        have hzero := ofDigits_toDigits (n / 10)
        rw [hquot] at hzero
        have : Decimal.ofDigits 10 ['0'] = 0 := rfl
        omega

/-- A character that goes on with a number. -/
def continuesNumber (c : Char) : Bool :=
  c.isDigit || ['.', 'e', 'E', 'x', 'X'].contains c

theorem isNameChar_of_isDigit (h : c.isDigit = true) : Text.isNameChar c = true := by
  simp [Text.isNameChar, h]

theorem isLetter_of_isDigit (h : c.isDigit = true) : Text.isLetter c = false := by
  have hrange := range_of_isDigit h
  refine Bool.eq_false_iff.mpr fun hletter => ?_
  rcases range_of_isLetter hletter with hletters | hletters | rfl
  · omega
  · omega
  · exact absurd hrange.2 (by decide)

/-- Where a number ends, no digit, point or letter follows. -/
theorem of_stopsNumber (h : (!Text.isNameChar c && c != '.') = true) :
    continuesNumber c = false ∧ Text.isLetter c = false ∧ c ≠ 'u' ∧ c ≠ 'U' := by
  simp only [Bool.and_eq_true, Bool.not_eq_true', bne_iff_ne, ne_eq, Text.isNameChar,
    Bool.or_eq_false_iff] at h
  obtain ⟨⟨hletter, hdigit⟩, hdot⟩ := h
  refine ⟨?_, hletter, ?_, ?_⟩
  · simp only [continuesNumber, hdigit, Bool.false_or, List.contains_eq_mem, List.mem_cons,
      List.not_mem_nil, or_false, decide_eq_false_iff_not, not_or]
    refine ⟨hdot, ?_, ?_, ?_, ?_⟩ <;> rintro rfl <;> cases hletter
  · rintro rfl
    cases hletter
  · rintro rfl
    cases hletter

section
variable {cs whole rest point fraction tail : List Char}
  (hwhole : cs.takeWhile Char.isDigit = whole) (hrest : cs.drop whole.length = rest)
  (hparts : fractionParts rest = (point, fraction, tail))

include hwhole hrest hparts

theorem readDecimal_error {problem : SyntaxProblem} (h : readExponent tail = .error problem) :
    readDecimal cs = .error problem := by
  unfold readDecimal
  simp only [hwhole, hrest, hparts, h]

theorem readDecimal_some {e : Exponent} (h : readExponent tail = .ok (some e)) :
    readDecimal cs = floatEnd (.ofDecimal (.ofParts whole fraction e.value))
      (whole ++ point ++ fraction ++ e.text) e.rest := by
  unfold readDecimal
  simp only [hwhole, hrest, hparts, h]

theorem readDecimal_none (h : readExponent tail = .ok none) :
    readDecimal cs = if point.isEmpty then readInteger whole tail
      else floatEnd (.ofDecimal (.ofParts whole fraction 0)) (whole ++ point ++ fraction) tail := by
  unfold readDecimal
  simp only [hwhole, hrest, hparts, h]

end

theorem readExponent_stop (hrest : ∀ d ∈ rest.head?, continuesNumber d = false) :
    readExponent rest = .ok none := by
  cases rest with
  | nil => rfl
  | cons d rest =>
    have hd := hrest d rfl
    unfold readExponent
    refine if_neg fun he => ?_
    simp only [Bool.or_eq_true, beq_iff_eq] at he
    rcases he with rfl | rfl <;> cases hd

theorem readNumber_eq (h : c = '0' → ∀ d ∈ cs.head?, d ≠ 'x' ∧ d ≠ 'X') :
    readNumber (c :: cs) = readDecimal (c :: cs) := by
  unfold readNumber
  split
  · rename_i hcs
    obtain ⟨rfl, rfl⟩ := List.cons.inj hcs
    exact absurd rfl (h rfl 'x' rfl).1
  · rename_i hcs
    obtain ⟨rfl, rfl⟩ := List.cons.inj hcs
    exact absurd rfl (h rfl 'X' rfl).2
  · rfl

theorem readInteger_toDigits (hn : n ≤ 0xFFFFFFFF) (rest : List Char) :
    readInteger (Nat.toDigits 10 n) rest = integerEnd n (Nat.toDigits 10 n).length rest := by
  unfold readInteger
  dsimp only
  split
  · rename_i d ds hzero
    cases toDigits_eq_zero_cons hzero
  · rw [ofDigits_toDigits, if_pos hn]

theorem readInteger_tooLarge (hn : 0xFFFFFFFF < n) (rest : List Char) :
    readInteger (Nat.toDigits 10 n) rest = .error (.integerTooLarge (String.ofList (Nat.toDigits 10 n))) := by
  unfold readInteger
  dsimp only
  split
  · rename_i d ds hzero
    cases toDigits_eq_zero_cons hzero
  · rw [ofDigits_toDigits, if_neg (Nat.not_le.mpr hn)]

theorem readToken_toDigits (hdigits : Nat.toDigits 10 n ++ rest = c :: cs)
    (hrest : ∀ d ∈ rest.head?, continuesNumber d = false) :
    readToken c cs = readInteger (Nat.toDigits 10 n) rest := by
  have hall : ∀ d ∈ Nat.toDigits 10 n, d.isDigit = true := isDigit_of_mem_toDigits
  obtain ⟨c', cs', hcons⟩ := List.exists_cons_of_ne_nil (Nat.toDigits_ne_nil (n := n) (b := 10))
  have hsplit : c' = c ∧ cs' ++ rest = cs := by
    rw [hcons] at hdigits
    exact List.cons.inj hdigits
  have hdigit : c.isDigit = true := hsplit.1 ▸ hall c' (hcons ▸ List.mem_cons_self)
  have hwhole : (c :: cs).takeWhile Char.isDigit = Nat.toDigits 10 n := by
    rw [← hdigits]
    refine takeWhile_append_stop hall fun d hd => ?_
    have := hrest d hd
    simp only [continuesNumber, Bool.or_eq_false_iff] at this
    exact this.1
  have hdrop : (c :: cs).drop (Nat.toDigits 10 n).length = rest := by
    rw [← hdigits]
    exact List.drop_left
  have hparts : fractionParts rest = ([], [], rest) := by
    unfold fractionParts
    split
    · cases hrest '.' rfl
    · rfl
  have hnumber : readNumber (c :: cs) = readDecimal (c :: cs) := by
    refine readNumber_eq fun _ d hd => ?_
    have hcontinues : d.isDigit = true ∨ continuesNumber d = false := by
      rw [← hsplit.2] at hd
      cases cs' with
      | nil => exact .inr (hrest d hd)
      | cons d' ds' =>
        obtain rfl : d' = d := Option.mem_some_iff.mp hd
        exact .inl (hall d' (hcons ▸ List.mem_cons_of_mem _ List.mem_cons_self))
    constructor <;> rintro rfl <;> simp [continuesNumber] at hcontinues
  unfold readToken
  rw [if_neg (by simp [isLetter_of_isDigit hdigit]), if_pos (by simp [hdigit]), hnumber,
    readDecimal_none hwhole hdrop hparts (readExponent_stop hrest)]
  rfl

theorem readToken_digits (hn : n ≤ 0xFFFFFFFF) (hdigits : Nat.toDigits 10 n ++ rest = c :: cs)
    (hrest : ∀ d ∈ rest.head?, continuesNumber d = false) :
    readToken c cs = integerEnd n (Nat.toDigits 10 n).length rest :=
  (readToken_toDigits hdigits hrest).trans (readInteger_toDigits hn rest)

theorem integerEnd_stop {value length : Nat}
    (hrest : ∀ d ∈ rest.head?, (!Text.isNameChar d && d != '.') = true) :
    integerEnd value length rest = .ok (.int (UInt32.ofNat value), length) := by
  cases rest with
  | nil => rfl
  | cons d rest =>
    obtain ⟨-, hletter, hu, hU⟩ := of_stopsNumber (hrest d rfl)
    simp [integerEnd, hu, hU, hletter]

/-- What starts with a digit is no comment and no directive. -/
theorem nextPiece_eq_of_isDigit (hc : c.isDigit = true) :
    nextPiece fresh c cs = (readToken c cs).map fun (token, length) => (.token token, length) := by
  refine nextPiece_eq_map (isBlank_of_isNameChar (isNameChar_of_isDigit hc)) ?_ ?_
  · rintro rfl
    cases hc
  · rintro rfl
    cases hc

theorem nextPiece_of_isDigit {t : Token} (hc : c.isDigit = true) (h : readToken c cs = .ok (t, n)) :
    nextPiece fresh c cs = .ok (.token t, n) := by
  rw [nextPiece_eq_of_isDigit hc, h]
  rfl

theorem isDigit_of_toDigits_append (h : Nat.toDigits 10 n ++ rest = c :: cs) : c.isDigit = true := by
  obtain ⟨c', cs', hcons⟩ := List.exists_cons_of_ne_nil (Nat.toDigits_ne_nil (n := n) (b := 10))
  have hc : c' = c := by
    rw [hcons] at h
    exact (List.cons.inj h).1
  exact hc ▸ isDigit_of_mem_toDigits c' (hcons ▸ List.mem_cons_self)

theorem spells_int (hn : n ≤ 0xFFFFFFFF) :
    Spells (Nat.toDigits 10 n) (.int (UInt32.ofNat n)) where
  nonempty := Nat.toDigits_ne_nil
  read fresh rest hrest c cs hcs := by
    refine nextPiece_of_isDigit (isDigit_of_toDigits_append hcs) ?_
    rw [readToken_digits hn hcs fun d hd => (of_stopsNumber (hrest d hd)).1]
    exact integerEnd_stop hrest

theorem spells_uint (hn : n ≤ 0xFFFFFFFF) :
    Spells (Nat.toDigits 10 n ++ ['u']) (.uint (UInt32.ofNat n)) where
  nonempty := by simp
  read fresh rest hrest c cs hcs := by
    rw [List.append_assoc, List.singleton_append] at hcs
    refine nextPiece_of_isDigit (isDigit_of_toDigits_append hcs) ?_
    rw [readToken_digits hn hcs (by simp [continuesNumber]), List.length_append]
    rfl

end Lexer

namespace Single

/-- Reading the decimal text of a value gives the value back. -/
def ReadsBack (x : Single) : Prop :=
  ∃ c cs, x.spelling.toList = c :: cs ∧ Lexer.readToken c cs = .ok (.float x, cs.length + 1)

end Single

namespace Lexer

variable {c : Char} {cs : List Char} {x : Single}

/-- What follows a text does not change what is taken from it, if it does not go on with it. -/
theorem takeWhile_append_rest {p : Char → Bool} (cs : List Char) {rest : List Char}
    (hrest : ∀ d ∈ rest.head?, p d = false) :
    (cs ++ rest).takeWhile p = cs.takeWhile p ∧
      (cs ++ rest).drop (cs.takeWhile p).length = cs.drop (cs.takeWhile p).length ++ rest := by
  have htake : (cs ++ rest).takeWhile p = cs.takeWhile p := by
    rw [List.takeWhile_append]
    split
    · rename_i hlength
      have hall := (List.takeWhile_prefix p).eq_of_length hlength
      rw [hall]
      cases rest with
      | nil => simp
      | cons d rest => simp [hrest d rfl]
    · rfl
  refine ⟨htake, ?_⟩
  rw [List.drop_append_of_le_length (List.takeWhile_prefix p).length_le]

/-- The sign of an exponent. -/
def exponentSign : List Char → List Char
  | '+' :: _ => ['+']
  | '-' :: _ => ['-']
  | _ => []

theorem readExponent_cons (hc : (c == 'e' || c == 'E') = true) (cs : List Char) :
    readExponent (c :: cs) =
      let sign := exponentSign cs
      let digits := (cs.drop sign.length).takeWhile Char.isDigit
      if digits.isEmpty then .error .exponentWithoutDigits
      else .ok (some ⟨'e' :: sign ++ digits,
        if sign == ['-'] then -(Decimal.ofDigits 10 digits : Int) else Decimal.ofDigits 10 digits,
        (cs.drop sign.length).drop digits.length⟩) := by
  unfold readExponent
  dsimp only
  rw [if_pos hc]
  rfl

theorem readExponent_of_ne (hc : (c == 'e' || c == 'E') = false) (cs : List Char) :
    readExponent (c :: cs) = .ok none := by
  unfold readExponent
  dsimp only
  rw [if_neg (by rw [hc]; exact Bool.false_ne_true)]

theorem exponentSign_append (h : cs ≠ []) (rest : List Char) :
    exponentSign (cs ++ rest) = exponentSign cs := by
  obtain ⟨c, cs, rfl⟩ := List.exists_cons_of_ne_nil h
  rw [List.cons_append]
  unfold exponentSign
  split <;> simp_all

theorem length_exponentSign_le (cs : List Char) : (exponentSign cs).length ≤ cs.length := by
  unfold exponentSign
  split <;> simp

theorem integerEnd_ne_float (value length : Nat) (rest : List Char) (x : Single) (n : Nat) :
    integerEnd value length rest ≠ .ok (.float x, n) := by
  intro h
  unfold integerEnd at h
  repeat' split at h
  all_goals cases h

/-- Without point and exponent a number is an integer. -/
theorem readInteger_ne_float (digits rest : List Char) (x : Single) (n : Nat) :
    readInteger digits rest ≠ .ok (.float x, n) := by
  intro h
  unfold readInteger at h
  dsimp only at h
  repeat' split at h
  all_goals first
    | cases h
    | exact integerEnd_ne_float _ _ _ x n h

theorem readHex_ne_float (cs : List Char) (x : Single) (n : Nat) : readHex cs ≠ .ok (.float x, n) := by
  intro h
  unfold readHex at h
  dsimp only at h
  repeat' split at h
  all_goals first
    | cases h
    | exact integerEnd_ne_float _ _ _ x n h

section Behind

variable {rest : List Char} (hrest : ∀ d ∈ rest.head?, (!Text.isNameChar d && d != '.') = true)
  {cs : List Char}
include hrest

theorem isDigit_head_rest : ∀ d ∈ rest.head?, d.isDigit = false := by
  intro d hd
  have := (of_stopsNumber (hrest d hd)).1
  simp only [continuesNumber, Bool.or_eq_false_iff] at this
  exact this.1

theorem fractionParts_append {point fraction tail : List Char}
    (h : fractionParts cs = (point, fraction, tail)) :
    fractionParts (cs ++ rest) = (point, fraction, tail ++ rest) := by
  cases cs with
  | nil =>
    obtain ⟨rfl, rfl, rfl⟩ : [] = point ∧ [] = fraction ∧ [] = tail := by
      simpa [fractionParts] using h
    rw [List.nil_append]
    unfold fractionParts
    split
    · have := (of_stopsNumber (hrest '.' rfl)).1
      cases this
    · rfl
  | cons c cs =>
    rw [List.cons_append]
    unfold fractionParts at h ⊢
    split at h
    · rename_i hcs
      obtain ⟨rfl, rfl⟩ := List.cons.inj hcs
      obtain ⟨htake, hdrop⟩ := takeWhile_append_rest cs (isDigit_head_rest hrest)
      obtain ⟨rfl, rfl, rfl⟩ : ['.'] = point ∧ cs.takeWhile Char.isDigit = fraction ∧
          cs.drop (cs.takeWhile Char.isDigit).length = tail := by
        simpa using h
      simp only [htake, hdrop]
    · rename_i hcs
      obtain ⟨rfl, rfl, rfl⟩ : [] = point ∧ [] = fraction ∧ c :: cs = tail := by
        simpa using h
      split
      · rename_i heq
        exact absurd (congrArg (· :: cs) (List.cons.inj heq).1) (hcs cs)
      · rfl

theorem readExponent_append_none (h : readExponent cs = .ok none) :
    readExponent (cs ++ rest) = .ok none := by
  cases cs with
  | nil => exact readExponent_stop fun d hd => (of_stopsNumber (hrest d hd)).1
  | cons c cs =>
    cases hc : (c == 'e' || c == 'E') with
    | false => exact readExponent_of_ne hc _
    | true =>
      rw [readExponent_cons hc] at h
      dsimp only at h
      split at h <;> cases h

theorem readExponent_append_some {e : Exponent} (h : readExponent cs = .ok (some e)) :
    readExponent (cs ++ rest) = .ok (some ⟨e.text, e.value, e.rest ++ rest⟩) := by
  cases cs with
  | nil => cases h
  | cons c cs =>
    cases hc : (c == 'e' || c == 'E') with
    | false =>
      rw [readExponent_of_ne hc] at h
      cases h
    | true =>
      rw [readExponent_cons hc] at h
      dsimp only at h
      split at h
      · cases h
      · rename_i hdigits
        have hne : cs ≠ [] := by
          rintro rfl
          exact hdigits rfl
        have hdrop : (cs ++ rest).drop (exponentSign cs).length =
            cs.drop (exponentSign cs).length ++ rest :=
          List.drop_append_of_le_length (length_exponentSign_le cs)
        obtain ⟨htake, hbehind⟩ := takeWhile_append_rest (cs.drop (exponentSign cs).length)
          (isDigit_head_rest hrest)
        rw [List.cons_append, readExponent_cons hc]
        dsimp only
        rw [exponentSign_append hne, hdrop, htake, hbehind, if_neg hdigits]
        cases h
        rfl

theorem floatEnd_append {value : Single} {text tail : List Char} {r : Token × Nat}
    (h : floatEnd value text tail = .ok r) : floatEnd value text (tail ++ rest) = .ok r := by
  cases tail with
  | nil =>
    cases rest with
    | nil => exact h
    | cons d rest =>
      have hletter := (of_stopsNumber (hrest d rfl)).2.1
      simpa [floatEnd, hletter] using h
  | cons c tail => exact h

/-- A floating-point literal is read alike whatever follows it. -/
theorem readDecimal_append {x : Single} {n : Nat}
    (h : readDecimal cs = .ok (.float x, n)) : readDecimal (cs ++ rest) = .ok (.float x, n) := by
  obtain ⟨htake, hdrop⟩ := takeWhile_append_rest cs (isDigit_head_rest hrest)
  obtain ⟨⟨point, fraction, tail⟩, hparts⟩ :
      ∃ parts, fractionParts (cs.drop (cs.takeWhile Char.isDigit).length) = parts := ⟨_, rfl⟩
  have hparts' := fractionParts_append hrest hparts
  cases hexponent : readExponent tail with
  | error problem =>
    rw [readDecimal_error rfl rfl hparts hexponent] at h
    cases h
  | ok e =>
    cases e with
    | some e =>
      rw [readDecimal_some rfl rfl hparts hexponent] at h
      rw [readDecimal_some htake hdrop hparts' (readExponent_append_some hrest hexponent)]
      exact floatEnd_append hrest h
    | none =>
      rw [readDecimal_none rfl rfl hparts hexponent] at h
      rw [readDecimal_none htake hdrop hparts' (readExponent_append_none hrest hexponent)]
      split at h
      · exact absurd h (readInteger_ne_float _ _ x n)
      · rename_i hpoint
        rw [if_neg hpoint]
        exact floatEnd_append hrest h

end Behind

theorem ofWord_ne_float (word : String) (x : Single) : Token.ofWord word ≠ .float x := by
  intro h
  unfold Token.ofWord at h
  repeat' split at h
  all_goals cases h

/-- A floating-point value is read only from what starts like a number. -/
theorem readNumber_of_readToken {n : Nat} (h : readToken c cs = .ok (.float x, n)) :
    Text.isLetter c = false ∧ (c.isDigit || (c == '.' && (cs.head?.map Char.isDigit).getD false)) = true ∧
      readNumber (c :: cs) = .ok (.float x, n) := by
  unfold readToken at h
  split at h
  · unfold readWord at h
    dsimp only at h
    repeat' split at h
    all_goals first
      | cases h
      | exact absurd (Prod.mk.inj (Except.ok.inj h)).1 (ofWord_ne_float _ x)
  · rename_i hletter
    split at h
    · rename_i hnumber
      exact ⟨by simpa using hletter, hnumber, h⟩
    · split at h <;> cases h

theorem readDecimal_of_readNumber {n : Nat} (h : readNumber (c :: cs) = .ok (.float x, n)) :
    readDecimal (c :: cs) = .ok (.float x, n) ∧ (c = '0' → ∀ d ∈ cs.head?, d ≠ 'x' ∧ d ≠ 'X') := by
  unfold readNumber at h
  split at h
  · exact absurd h (readHex_ne_float _ x n)
  · exact absurd h (readHex_ne_float _ x n)
  · rename_i hx hX
    refine ⟨h, ?_⟩
    rintro rfl d hd
    obtain ⟨ds, rfl⟩ := List.head?_eq_some_iff.mp hd
    constructor
    · rintro rfl
      exact hx ds rfl
    · rintro rfl
      exact hX ds rfl

/-- A text that is read as a floating-point value is read alike whatever follows it. -/
theorem spells_of_readToken (hread : readToken c cs = .ok (.float x, cs.length + 1)) :
    Spells (c :: cs) (.float x) := by
  refine ⟨by simp, fun fresh rest hrest c' cs' hcs => ?_⟩
  obtain ⟨rfl, rfl⟩ := List.cons.inj hcs
  obtain ⟨hletter, hstart, hnumber⟩ := readNumber_of_readToken hread
  obtain ⟨hdecimal, hhex⟩ := readDecimal_of_readNumber hnumber
  have hnumber' : readNumber (c :: (cs ++ rest)) = .ok (.float x, cs.length + 1) := by
    rw [readNumber_eq]
    · exact readDecimal_append hrest hdecimal
    · intro hc d hd
      cases cs with
      | nil =>
        have hletter := (of_stopsNumber (hrest d hd)).2.1
        constructor <;> rintro rfl <;> cases hletter
      | cons d' ds => exact hhex hc d hd
  have hstart' : (c.isDigit || (c == '.' && ((cs ++ rest).head?.map Char.isDigit).getD false)) = true := by
    cases cs with
    | nil =>
      have hdigit : c.isDigit = true := by simpa using hstart
      simp [hdigit]
    | cons d ds => exact hstart
  have hread' : readToken c (cs ++ rest) = .ok (.float x, cs.length + 1) := by
    unfold readToken
    rw [if_neg (by simp [hletter]), if_pos hstart', hnumber']
  cases hdigit : c.isDigit with
  | true => exact nextPiece_of_isDigit hdigit hread'
  | false =>
    obtain rfl : c = '.' := by
      rw [hdigit, Bool.false_or, Bool.and_eq_true, beq_iff_eq] at hstart
      exact hstart.1
    exact nextPiece_of_readToken (by decide) (by decide) (fun h => absurd h (by decide)) hread'

theorem spells_float (h : x.ReadsBack) : Spells x.spelling.toList (.float x) := by
  obtain ⟨c, cs, hspelling, hread⟩ := h
  rw [hspelling]
  exact spells_of_readToken hread

end Lexer

end GlslEs
