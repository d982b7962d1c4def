import GlslEs.Token.Lexer

/-!
# The tokens of a text

`Token.IsRead` says what the lexer guarantees of a single token: names are words of letters,
digits and underscores with no other meaning, type words are those of the table, numbers with
a point are rounded from their decimal digits, and the name of an extension stands on one line.

`Lexer.isRead_of_tokenize`: every token of a text is such a token.
-/

namespace GlslEs

section

variable {ε α β : Type} {x : Except ε α} {b : β}

/-- A computation in two parts succeeds exactly when both do. -/
theorem Except.bind_eq_ok_iff {f : α → Except ε β} : x >>= f = .ok b ↔ ∃ a, x = .ok a ∧ f a = .ok b := by
  cases x with
  | error e | ok a => simp [bind, Except.bind]

theorem Except.map_eq_ok_iff {f : α → β} : x.map f = .ok b ↔ ∃ a, x = .ok a ∧ f a = b := by
  cases x with
  | error e | ok a => simp [Except.map]

end

theorem Lexer.hasDoubleUnderscore_eq_false {cs : List Char} (h : '_' ∉ cs) : hasDoubleUnderscore cs = false := by
  fun_induction hasDoubleUnderscore cs with
  | case1 cs => exact absurd List.mem_cons_self h
  | case2 c cs _ ih => exact ih fun hcs => h (List.mem_cons_of_mem c hcs)
  | case3 => rfl

/-- A word of letters, digits and underscores; if `strict`, one that a shader may use. -/
structure Lexer.Wordlike (strict : Bool) (word : String) : Prop where
  chars : ∃ c cs, word.toList = c :: cs ∧ Text.isLetter c = true ∧ cs.all Text.isNameChar = true
  allowed : strict = true → Token.isReservedWord word = false ∧ hasDoubleUnderscore word.toList = false

/-- A word that can be read as a name. -/
structure IsName (name : String) : Prop where
  chars : ∃ c cs, name.toList = c :: cs ∧ Text.isLetter c = true ∧ cs.all Text.isNameChar = true
  notReserved : Token.isReservedWord name = false
  underscores : Lexer.hasDoubleUnderscore name.toList = false
  meaning : Token.ofWord name = .identifier name

theorem IsName.wordlike {strict : Bool} {name : String} (h : IsName name) : Lexer.Wordlike strict name :=
  ⟨h.chars, fun _ => ⟨h.notReserved, h.underscores⟩⟩

/-- What the lexer guarantees of a token. -/
def Token.IsRead : Token → Prop
  | .identifier name => IsName name
  | .typeName ty => ∃ word, Ty.ofKeyword? word = some ty
  | .float value => ∃ d, value = .ofDecimal d
  | .extension name _ => '\n' ∉ name.toList
  | _ => True

namespace Lexer

variable {c : Char} {fresh : Bool} {ls : List Lexeme}

/-- What is read is such a token, not the closing one, and takes some characters. -/
structure Takes (t : Token) (n : Nat) : Prop where
  isRead : t.IsRead
  ne_end : t ≠ .endOfText
  pos : 0 < n

variable {n : Nat} {t : Token} {cs : List Char}

/-! ### Numbers -/

theorem takes_of_integerEnd {value length : Nat} (hlength : 0 < length)
    (h : integerEnd value length cs = .ok (t, n)) : Takes t n := by
  unfold integerEnd at h
  split at h
  · cases h
    exact ⟨trivial, by simp, hlength⟩
  · split at h
    · cases h
      exact ⟨trivial, by simp, Nat.succ_pos length⟩
    · split at h
      · cases h
      · cases h
        exact ⟨trivial, by simp, hlength⟩

theorem takes_of_floatEnd {d : Decimal} {text : List Char} (htext : 0 < text.length)
    (h : floatEnd (.ofDecimal d) text cs = .ok (t, n)) : Takes t n := by
  unfold floatEnd at h
  split at h
  · split at h
    · cases h
    · cases h
      exact ⟨⟨d, rfl⟩, by simp, htext⟩
  · cases h
    exact ⟨⟨d, rfl⟩, by simp, htext⟩

theorem takes_of_readInteger {digits : List Char} (hdigits : 0 < digits.length)
    (h : readInteger digits cs = .ok (t, n)) : Takes t n := by
  unfold readInteger at h
  dsimp only at h
  split at h <;> split at h
  · exact takes_of_integerEnd hdigits h
  · cases h
  · exact takes_of_integerEnd hdigits h
  · cases h

theorem takes_of_readHex (h : readHex cs = .ok (t, n)) : Takes t n := by
  unfold readHex at h
  dsimp only at h
  split at h
  · cases h
  · split at h
    · exact takes_of_integerEnd (Nat.succ_pos _) h
    · cases h

theorem takes_of_readDecimal (hc : c.isDigit = true ∨ c = '.')
    (h : readDecimal (c :: cs) = .ok (t, n)) : Takes t n := by
  -- A literal has a digit in front of its point, or the point.
  have hfront : 0 < ((c :: cs).takeWhile Char.isDigit).length ∨
      (fractionParts ((c :: cs).drop ((c :: cs).takeWhile Char.isDigit).length)).1 ≠ [] := by
    by_cases hdigit : c.isDigit = true
    · simp [hdigit]
    · obtain rfl := hc.resolve_left hdigit
      exact .inr (by simp [fractionParts, hdigit])
  unfold readDecimal at h
  dsimp only at h
  have hpos (text : List Char) : 0 < ((c :: cs).takeWhile Char.isDigit ++
      (fractionParts ((c :: cs).drop ((c :: cs).takeWhile Char.isDigit).length)).1 ++ text).length := by
    rw [← List.length_pos_iff] at hfront
    simp only [List.length_append]
    omega
  split at h
  · cases h
  · exact takes_of_floatEnd (by simpa only [List.append_assoc] using hpos _) h
  · -- With or without a point, a literal without an exponent is one of two.
    split at h
    · rename_i hpoint
      exact takes_of_readInteger (hfront.resolve_right fun hne => hne (List.isEmpty_iff.mp hpoint)) h
    · exact takes_of_floatEnd (hpos _) h

theorem takes_of_readNumber (hc : c.isDigit = true ∨ c = '.')
    (h : readNumber (c :: cs) = .ok (t, n)) : Takes t n := by
  unfold readNumber at h
  split at h
  · exact takes_of_readHex h
  · exact takes_of_readHex h
  · exact takes_of_readDecimal hc h

/-! ### Words -/

theorem isRead_ofWord {word : String} (h : Token.ofWord word = .identifier word → IsName word) :
    (Token.ofWord word).IsRead ∧ Token.ofWord word ≠ .endOfText := by
  generalize ht : Token.ofWord word = t at h
  unfold Token.ofWord at ht
  split at ht
  · cases ht
    exact ⟨trivial, by simp⟩
  · cases ht
    exact ⟨trivial, by simp⟩
  · split at ht
    · cases ht
      exact ⟨trivial, by simp⟩
    · split at ht
      · cases ht
        exact ⟨trivial, by simp⟩
      · split at ht
        · rename_i hty
          cases ht
          exact ⟨⟨word, hty⟩, by simp⟩
        · cases ht
          exact ⟨h rfl, by simp⟩

theorem takes_of_readWord (hc : Text.isLetter c = true)
    (h : readWord (c :: cs) = .ok (t, n)) : Takes t n := by
  have hname : Text.isNameChar c = true := by simp [Text.isNameChar, hc]
  unfold readWord at h
  dsimp only at h
  split at h
  · cases h
  · rename_i hreserved
    split at h
    · cases h
    · rename_i hunderscore
      cases h
      rw [List.takeWhile_cons_of_pos hname] at hreserved hunderscore ⊢
      generalize hword : String.ofList (c :: cs.takeWhile Text.isNameChar) = word at hreserved ⊢
      have hchars : word.toList = c :: cs.takeWhile Text.isNameChar := by
        rw [← hword, String.toList_ofList]
      obtain ⟨hread, hne⟩ := isRead_ofWord fun ht => ⟨⟨c, _, hchars, hc, List.all_takeWhile⟩,
        by simpa using hreserved, by simpa [hchars] using hunderscore, ht⟩
      exact ⟨hread, hne, Nat.succ_pos _⟩

/-! ### Directives -/

theorem isBlank_of_mem_wordChars :
    ∀ word ∈ Text.wordChars cs, ∀ c ∈ word, Text.isBlank c = false := by
  have hfold : (∀ c ∈ (cs.foldr Text.wordStep ([], [])).1, Text.isBlank c = false) ∧
      ∀ word ∈ (cs.foldr Text.wordStep ([], [])).2, ∀ c ∈ word, Text.isBlank c = false := by
    induction cs with
    | nil => simp
    | cons c cs ih =>
      rw [List.foldr_cons]
      generalize cs.foldr Text.wordStep ([], []) = state at ih
      obtain ⟨word, found⟩ := state
      simp only [Text.wordStep]
      split
      · refine ⟨by simp, ?_⟩
        split
        · exact ih.2
        · exact List.forall_mem_cons.mpr ih
      · rename_i hc
        exact ⟨List.forall_mem_cons.mpr ⟨by simpa using hc, ih.1⟩, ih.2⟩
  intro word hword
  simp only [Text.wordChars] at hword
  split at hword
  · exact hfold.2 word hword
  · rcases List.mem_cons.mp hword with rfl | hword
    · exact hfold.1
    · exact hfold.2 word hword

theorem mem_of_mem_trim (h : c ∈ Text.trim cs) : c ∈ cs := by
  have hleft {cs : List Char} (h : c ∈ Text.trimLeft cs) : c ∈ cs := (List.dropWhile_sublist _).subset h
  exact hleft (List.mem_reverse.mp (hleft (List.mem_reverse.mp h)))

theorem mem_of_mem_intercalate {sep : List Char} {words : List (List Char)}
    (h : c ∈ sep.intercalate words) : c ∈ sep ∨ ∃ word ∈ words, c ∈ word := by
  induction words with
  | nil => cases h
  | cons word words ih =>
    cases words with
    | nil => exact .inr ⟨word, List.mem_cons_self, by simpa using h⟩
    | cons next words =>
      rw [List.intercalate_cons_cons, List.mem_append, List.mem_append] at h
      rcases h with (h | h) | h
      · exact .inr ⟨word, List.mem_cons_self, h⟩
      · exact .inl h
      · exact (ih h).imp_right fun ⟨w, hw, hc⟩ => ⟨w, List.mem_cons_of_mem word hw, hc⟩

/-- The name of an extension stands on one line. -/
theorem isRead_of_readExtension {words : List String} (h : readExtension words = .ok t)
    (hwords : ∀ word ∈ words, ∀ c ∈ word.toList, Text.isBlank c = false) : t.IsRead ∧ t ≠ .endOfText := by
  unfold readExtension at h
  dsimp only at h
  split at h
  · cases h
  · split at h
    · cases h
    · cases h
      refine ⟨fun hmem => ?_, by simp⟩
      rw [String.toList_ofList] at hmem
      have hmem := List.takeWhile_subset _ (mem_of_mem_trim hmem)
      rw [String.toList_intercalate] at hmem
      rcases mem_of_mem_intercalate hmem with hmem | ⟨_, hchars, hmem⟩
      · exact absurd hmem (by decide)
      · obtain ⟨word, hword, rfl⟩ := List.mem_map.mp hchars
        exact absurd (hwords word hword _ hmem) (by decide)

/-! ### Whole texts -/

theorem isRead_of_readDirective {line : List Char} (h : readDirective line = .ok (some t)) :
    t.IsRead ∧ t ≠ .endOfText := by
  unfold readDirective at h
  split at h
  · cases h
  · cases h
  · rename_i rest _
    unfold readVersion at h
    split at h
    · cases h
    · split at h
      · cases h
      · split at h
        · cases h
          exact ⟨trivial, by simp⟩
        · cases h
          exact ⟨trivial, by simp⟩
        · cases h
  · rename_i rest hwords
    obtain ⟨token, htoken, heq⟩ := Except.map_eq_ok_iff.mp h
    cases heq
    refine isRead_of_readExtension htoken fun word hword c hc => ?_
    have hmem : word ∈ Text.words (beforeLineComment line) := hwords ▸ List.mem_cons_of_mem _ hword
    obtain ⟨chars, hchars, rfl⟩ := List.mem_map.mp hmem
    rw [String.toList_ofList] at hc
    exact isBlank_of_mem_wordChars chars hchars c hc
  · cases h

theorem takes_of_readToken (h : readToken c cs = .ok (t, n)) : Takes t n := by
  unfold readToken at h
  split at h
  · rename_i hc
    exact takes_of_readWord hc h
  · split at h
    · rename_i hc
      refine takes_of_readNumber ?_ h
      simp only [Bool.or_eq_true, Bool.and_eq_true, beq_iff_eq] at hc
      exact hc.imp_right (·.1)
    · split at h
      · rename_i p _
        cases h
        exact ⟨trivial, by simp, by cases p <;> decide⟩
      · cases h

/-- A piece takes some characters, and its tokens are not the closing one. -/
theorem takes_of_nextPiece {piece : Piece}
    (h : nextPiece fresh c cs = .ok (piece, n)) (loc : Location) :
    0 < n ∧ ∀ l ∈ piece.lexemes loc, l.loc = loc ∧ l.token.IsRead ∧ l.token ≠ .endOfText := by
  unfold nextPiece at h
  split at h
  · cases h
    simp [Piece.lexemes]
  · split at h
    · cases h
      simp [Piece.lexemes]
    · split at h
      · cases h
        simp [Piece.lexemes]
      · cases h
    · dsimp only at h
      split at h
      · obtain ⟨t, ht, heq⟩ := Except.map_eq_ok_iff.mp h
        cases heq
        cases t with
        | none => simp [Piece.lexemes]
        | some t => simpa [Piece.lexemes] using isRead_of_readDirective ht
      · cases h
    · obtain ⟨⟨t, _⟩, ht, heq⟩ := Except.map_eq_ok_iff.mp h
      cases heq
      have htakes := takes_of_readToken ht
      simpa [Piece.lexemes, htakes.pos] using ⟨htakes.isRead, htakes.ne_end⟩

theorem isRead_of_lexemes {fuel : Nat} {loc : Location} (h : lexemes fuel loc fresh cs = .ok ls) :
    ∀ l ∈ ls, l.token.IsRead := by
  fun_induction lexemes fuel loc fresh cs generalizing ls with
  | case1 | case2 =>
    cases h
    simp [Token.IsRead]
  | case3 => cases h
  | case4 fuel loc fresh c cs piece length hpiece text =>
    rename_i ih
    obtain ⟨rest, hrest, rfl⟩ := Except.map_eq_ok_iff.mp h
    intro l hl
    rcases List.mem_append.mp hl with hl | hl
    · exact ((takes_of_nextPiece hpiece loc).2 l hl).2.1
    · exact ih hrest l hl

/-- Every token of a text is one that the lexer guarantees something of. -/
theorem isRead_of_tokenize {source : String} (h : tokenize source = .ok ls) :
    ∀ l ∈ ls, l.token.IsRead := isRead_of_lexemes h

end Lexer

end GlslEs
