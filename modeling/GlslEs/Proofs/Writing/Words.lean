import GlslEs.Proofs.Reading.Spelled
import GlslEs.Proofs.Writing.Operators
import GlslEs.Proofs.Writing.Pieces

/-!
# The words of expressions

The texts of names, type words, literals and signs, and the tokens that they spell.

* `Lexer.lexesAs_word`: what a word is read as; some words have no token.
* `Lexer.spellsAll_name`, `Lexer.spellsAll_sign`, `Lexer.spellsAll_constant`: the text of one token.
* `Ty.exists_spellsAll`: **the text of a constructor's type names that type**, with its length.
* `SwizzleSet.isName_word`: **letters that select components are never a word with another meaning**.
-/

namespace GlslEs

/-! ### Names and signs -/

/-- A sign has neither blanks nor characters of names. -/
theorem Punct.of_mem_text (p : Punct) :
    ∀ c ∈ p.text.toList, Text.isBlank c = false ∧ Text.isNameChar c = false := by
  have hall : p.text.toList.all (fun c => !Text.isBlank c && !Text.isNameChar c) = true := by
    cases p <;> rfl
  simpa using hall

namespace Lexer

variable {strict : Bool} {word : String}

theorem isBlank_getLast_word (h : Wordlike strict word) :
    ∀ c ∈ word.toList.getLast?, Text.isBlank c = false := fun c hc =>
  isBlank_of_isNameChar (h.forall_isNameChar c (List.mem_of_getLast? hc))

theorem spellsAll_word (h : Wordlike true word) : SpellsAll word.toList [Token.ofWord word] :=
  (spells_word h).all (isBlank_getLast_word h)

/-- What a word is read as; some words have no token. -/
def wordReading (word : String) : Option (List Token) :=
  if Token.isReservedWord word || hasDoubleUnderscore word.toList then none else some [Token.ofWord word]

theorem lexesAs_word (h : Wordlike strict word) : LexesAs word.toList (wordReading word) := by
  unfold wordReading
  split
  case isFalse hword =>
    rw [Bool.or_eq_true, not_or, Bool.not_eq_true, Bool.not_eq_true] at hword
    exact spellsAll_word ⟨h.chars, fun _ => hword⟩
  case isTrue hword =>
    obtain ⟨c, cs, hchars, -⟩ := h.chars
    refine ⟨by simp [hchars], isBlank_getLast_word h, fun rest r' hstops _ fresh => ?_⟩
    have hcs : word.toList ++ rest = c :: (cs ++ rest) := by rw [hchars]; rfl
    have hrest : ∀ d ∈ rest.head?, Text.isNameChar d = false := fun d hd => by
      simpa [Token.stops] using hstops .endOfText rfl d hd
    obtain ⟨problem, hproblem⟩ : ∃ problem, nextPiece fresh c (cs ++ rest) = .error problem := by
      rw [nextPiece_wordlike h hcs, readToken_wordlike h hcs hrest]
      by_cases hreserved : Token.isReservedWord word = true
      · exact ⟨.reservedWord word, by rw [if_pos hreserved]; rfl⟩
      · refine ⟨.doubleUnderscore word, ?_⟩
        rw [if_neg hreserved, if_pos ((Bool.or_eq_true _ _ ▸ hword).resolve_left hreserved)]
        rfl
    rw [hcs]
    exact .error hproblem

/-- A word can be read where only words that a shader may use are allowed. -/
theorem Wordlike.isSome_wordReading (h : Wordlike strict word)
    (hstrict : strict = true) : (wordReading word).isSome = true := by
  obtain ⟨hreserved, hunderscores⟩ := h.allowed hstrict
  rw [wordReading, hreserved, hunderscores]
  rfl

theorem endsLikeWord_wordReading (word : String) : EndsLikeWord (wordReading word) := by
  unfold wordReading
  split
  · exact endsLikeWord_none
  · refine ⟨Token.ofWord word, rfl, fun d hd => ?_⟩
    unfold Token.ofWord
    repeat' split
    all_goals exact hd

theorem spellsAll_name {name : String} (h : IsName name) :
    SpellsAll name.toList [.identifier name] := by
  have hspells := spellsAll_word h.wordlike
  rwa [h.meaning] at hspells

theorem spellsAll_sign (p : Punct) : SpellsAll p.text.toList [.punct p] :=
  (spells_punct p).all fun c hc => (p.of_mem_text c (List.mem_of_getLast? hc)).1

end Lexer

namespace Punct
/-- Signs end in front of names and numbers; only a point goes on with digits. -/
theorem stops_of_isNameChar {p : Punct} {c : Char} (hp : p = .dot → c.isDigit = false)
    (hc : Text.isNameChar c = true) : p.stops c = true := by
  unfold stops
  simp only [Bool.and_eq_true, Bool.not_eq_true', List.any_eq_false]
  refine ⟨⟨?_, ?_⟩, ?_⟩
  · intro q _ hq
    rw [List.isPrefixOf_iff_prefix] at hq
    have hmem : c ∈ q.text.toList := hq.subset (by simp)
    rw [(q.of_mem_text c hmem).2] at hc
    cases hc
  · rw [Bool.and_eq_false_imp]
    intro _
    rw [Bool.or_eq_false_iff]
    constructor <;> rw [beq_eq_false_iff_ne] <;> rintro rfl <;> cases hc
  · rw [Bool.and_eq_false_imp]
    exact fun h => hp (beq_iff_eq.mp h)
end Punct

namespace Lexer

/-! ### Numbers -/

theorem isBlank_of_isDigit {c : Char} (h : c.isDigit = true) : Text.isBlank c = false :=
  isBlank_of_isNameChar (isNameChar_of_isDigit h)

theorem spellsAll_int {n : Nat} (hn : n ≤ 0xFFFFFFFF) :
    SpellsAll (toString n).toList [.int (UInt32.ofNat n)] := by
  have hdigits : (toString n).toList = Nat.toDigits 10 n := by simp
  rw [hdigits]
  exact (spells_int hn).all fun c hc =>
    isBlank_of_isDigit (isDigit_of_mem_toDigits c (List.mem_of_getLast? hc))

theorem spellsAll_uint {n : Nat} (hn : n ≤ 0xFFFFFFFF) :
    SpellsAll (toString n ++ "u").toList [.uint (UInt32.ofNat n)] := by
  have hdigits : (toString n ++ "u").toList = Nat.toDigits 10 n ++ ['u'] := by simp
  rw [hdigits]
  refine (spells_uint hn).all fun c hc => ?_
  obtain rfl : 'u' = c := by simpa using hc
  decide

end Lexer

namespace Decimal

/-- The characters of a number without sign. -/
def IsNumberChar (c : Char) : Prop := c.isDigit = true ∨ c = '.' ∨ c = 'e' ∨ c = '-'

theorem IsNumberChar.isBlank {c : Char} (h : IsNumberChar c) : Text.isBlank c = false := by
  rcases h with h | rfl | rfl | rfl
  · exact Lexer.isBlank_of_isDigit h
  · decide
  · decide
  · decide

theorem isNumberChar_of_mem_digitChars {n : Nat} {c : Char} (h : c ∈ digitChars n) : IsNumberChar c :=
  .inl (Lexer.isDigit_of_mem_toDigits c h)

theorem isNumberChar_of_mem_toString {n : Int} {c : Char} (h : c ∈ (toString n).toList) :
    IsNumberChar c := by
  cases n with
  | ofNat n =>
    have hdigits : (toString (Int.ofNat n)).toList = digitChars n := Nat.toList_repr
    exact isNumberChar_of_mem_digitChars (hdigits ▸ h)
  | negSucc n =>
    have hdigits : (toString (Int.negSucc n)).toList = '-' :: digitChars (n + 1) := by
      show ("-" ++ Nat.repr (n + 1)).toList = _
      simp [digitChars]
    rw [hdigits] at h
    rcases List.mem_cons.mp h with rfl | h
    · exact .inr (.inr (.inr rfl))
    · exact isNumberChar_of_mem_digitChars h

theorem isDigit_of_mem_positionalParts (d : Decimal) :
    (∀ c ∈ d.positionalParts.1, c.isDigit = true) ∧ ∀ c ∈ d.positionalParts.2, c.isDigit = true := by
  have hzeros {n : Nat} {c : Char} (h : c ∈ List.replicate n '0') : c.isDigit = true := by
    rw [List.eq_of_mem_replicate h]
    decide
  have hdigits {c : Char} (h : c ∈ digitChars d.significand) : c.isDigit = true :=
    Lexer.isDigit_of_mem_toDigits c h
  unfold positionalParts
  dsimp only
  split
  · exact ⟨fun c hc => (List.mem_append.mp hc).elim hdigits hzeros, by simp⟩
  · split
    · rw [List.splitAt_eq]
      exact ⟨fun c hc => hdigits (List.mem_of_mem_take hc), fun c hc => hdigits (List.mem_of_mem_drop hc)⟩
    · exact ⟨fun c hc => by rw [List.mem_singleton.mp hc]; decide,
        fun c hc => (List.mem_append.mp hc).elim hzeros hdigits⟩

theorem isNumberChar_of_mem_brief {d : Decimal} : ∀ c ∈ d.brief.toList, IsNumberChar c := by
  have hdot : IsNumberChar '.' := .inr (.inl rfl)
  have hpointed : ∀ c ∈ d.pointed.toList, IsNumberChar c := by
    obtain ⟨hwhole, hfraction⟩ : (∀ c ∈ d.positionalParts.1, IsNumberChar c) ∧
        ∀ c ∈ d.positionalParts.2, IsNumberChar c :=
      d.isDigit_of_mem_positionalParts.imp (fun h c hc => .inl (h c hc)) fun h c hc => .inl (h c hc)
    unfold pointed
    split
    · rename_i c fraction hparts
      rw [hparts] at hfraction
      simpa [hdot] using hfraction
    · rename_i whole fraction _ hparts
      rw [hparts] at hwhole hfraction
      simp only [String.toList_ofList, List.mem_append, List.mem_cons]
      rintro c (hc | rfl | hc)
      · exact hwhole c hc
      · exact hdot
      · exact hfraction c hc
  have hscientific : ∀ c ∈ d.scientific.toList, IsNumberChar c := by
    have hdigits {c : Char} (h : c ∈ digitChars d.significand) := isNumberChar_of_mem_digitChars h
    have he : IsNumberChar 'e' := .inr (.inr (.inl rfl))
    unfold scientific
    dsimp only
    split
    · exact fun c hc => by simp at hc; rcases hc with rfl | rfl | rfl <;> simp [IsNumberChar]
    · rename_i c hcs
      rw [hcs] at hdigits
      simp only [String.toList_append, String.toList_ofList, List.mem_append, List.mem_singleton]
      rintro x ((rfl | hx) | hx)
      · exact hdigits List.mem_cons_self
      · obtain rfl : x = 'e' := by simpa using hx
        exact he
      · exact isNumberChar_of_mem_toString hx
    · rename_i c cs _ hcs
      rw [hcs] at hdigits
      simp only [String.toList_append, String.toList_ofList, List.mem_append, List.mem_cons]
      rintro x (((rfl | rfl | hx) | hx) | hx)
      · exact hdigits List.mem_cons_self
      · exact hdot
      · exact hdigits (List.mem_cons_of_mem c hx)
      · obtain rfl : x = 'e' := by simpa using hx
        exact he
      · exact isNumberChar_of_mem_toString hx
  unfold brief
  split
  · exact hscientific
  · exact hpointed

end Decimal

theorem Single.isBlank_of_mem_spelling {x : Single} : ∀ c ∈ x.spelling.toList, Text.isBlank c = false := by
  have hquotient : ∀ text ∈ ["(0./0.)", "(-1./0.)", "(1./0.)"], ∀ c ∈ text.toList, Text.isBlank c = false := by
    have hall : ["(0./0.)", "(-1./0.)", "(1./0.)"].all (·.toList.all (!Text.isBlank ·)) = true := rfl
    simpa using hall
  unfold spelling
  split
  · exact hquotient _ (by simp)
  · split
    · exact hquotient _ (by simp)
    · exact hquotient _ (by simp)
  · dsimp only
    split
    · simp only [String.toList_append, List.mem_append]
      rintro c (hc | hc)
      · obtain rfl : c = '-' := by simpa using hc
        decide
      · exact (Decimal.isNumberChar_of_mem_brief c hc).isBlank
    · exact fun c hc => (Decimal.isNumberChar_of_mem_brief c hc).isBlank

/-- A constant whose text is read as the constant: there is no token for a minus sign in front of
digits. -/
def Constant.Readable : Constant → Prop
  | .float x => x.ReadsBack
  | .int n => 0 ≤ n
  | .uint _ | .bool _ => True

theorem Int32.toInt_eq_toUInt32 {n : Int32} (h : 0 ≤ n) : n.toInt = n.toUInt32.toNat := by
  rw [Int32.le_iff_toInt_le] at h
  have hzero : (0 : Int32).toInt = 0 := rfl
  have hcond : n.toInt = if 2 * n.toBitVec.toNat < 2 ^ 32 then (n.toBitVec.toNat : Int)
      else n.toBitVec.toNat - (2 ^ 32 : Nat) := BitVec.toInt_eq_toNat_cond n.toBitVec
  have hlt := n.toBitVec.isLt
  rw [hcond, hzero] at h
  rw [hcond]
  split
  · rfl
  · rename_i hnot
    rw [if_neg hnot] at h
    omega

namespace Lexer

theorem spellsAll_constant {value : Constant} (h : value.Readable) :
    SpellsAll value.spelling.toList [value.token] := by
  cases value with
  | float x =>
    exact (spells_float h).all fun c hc => Single.isBlank_of_mem_spelling c (List.mem_of_getLast? hc)
  | int n =>
    have hn := n.toUInt32.toNat_lt
    have htext : toString n.toInt = toString n.toUInt32.toNat := by
      rw [Int32.toInt_eq_toUInt32 h]
      rfl
    have hspells := spellsAll_int (n := n.toUInt32.toNat) (by omega)
    rw [UInt32.ofNat_toNat, ← htext] at hspells
    exact hspells
  | uint n =>
    have hn := n.toNat_lt
    have hspells := spellsAll_uint (n := n.toNat) (by omega)
    rw [UInt32.ofNat_toNat] at hspells
    exact hspells
  | bool b => cases b <;> exact spellsAll_word ⟨⟨_, _, rfl, by decide⟩, fun _ => by decide⟩

end Lexer

/-! ### Types -/

namespace Ty

/-- The type is that of a type word or of a known structure, or an array of it with a length that a literal
can give. -/
def Written (S : List String) (ty : Ty) : Prop :=
  ∃ word : Ty, ((∃ text, ofKeyword? text = some word) ∨ ∃ name ∈ S, IsName name ∧ word = .struct name) ∧
    (ty = word ∨ ∃ n < UInt32.size, ty = word.withArray (some n))

/-- **The text of a constructor's type names that type**, with its length. -/
theorem exists_spellsAll {S : List String} {ty : Ty} (h : ty.Written S) :
    ∃ us, Expr.NamesType S us ty ∧ Lexer.SpellsAll ty.name.toList us ∧
      ∀ c ∈ ty.name.toList.head?, Text.isNameChar c = true := by
  obtain ⟨word, hword, hty⟩ := h
  -- The word alone is one token.
  obtain ⟨t, ht, hbase, hof, harray⟩ : ∃ t, Expr.NamesType S [t] word ∧ Lexer.Wordlike true word.baseName ∧
      Token.ofWord word.baseName = t ∧ word.array = none := by
    rcases hword with ⟨text, htext⟩ | ⟨name, hmem, hname, rfl⟩
    · exact ⟨_, .word word, word_of_ofKeyword? htext⟩
    · exact ⟨_, .struct hmem, hname.wordlike, hname.meaning, rfl⟩
  have hspells : Lexer.SpellsAll word.baseName.toList [t] := hof ▸ Lexer.spellsAll_word hbase
  have hhead : ∀ c ∈ word.baseName.toList.head?, Text.isNameChar c = true := fun c hc =>
    hbase.forall_isNameChar c (List.mem_of_mem_head? hc)
  rcases hty with rfl | ⟨n, hn, rfl⟩
  · refine ⟨[t], ht, ?_⟩
    rw [name, harray]
    exact ⟨hspells, hhead⟩
  · have hsize : (UInt32.ofNat n).toNat = n := UInt32.toNat_ofNat_of_lt hn
    have harray := Expr.NamesType.array ht (UInt32.ofNat n)
    rw [hsize] at harray
    refine ⟨_, harray, ?_⟩
    have htext : (word.withArray (some n)).name.toList =
        word.baseName.toList ++ (Punct.leftBracket.text.toList ++
          ((toString n).toList ++ Punct.rightBracket.text.toList)) := by
      simp [name, withArray, baseName, Punct.text]
    obtain ⟨c, cs, hdigits⟩ := List.exists_cons_of_ne_nil (Nat.toDigits_ne_nil (b := 10) (n := n))
    have htoString : (toString n).toList = c :: cs := by simpa using hdigits
    have hc : Text.isNameChar c = true :=
      Lexer.isNameChar_of_isDigit (Lexer.isDigit_of_mem_toDigits c (hdigits ▸ List.mem_cons_self))
    have hn : n ≤ 0xFFFFFFFF := Nat.le_of_lt_succ hn
    rw [htext, List.head?_append_of_ne_nil _ hspells.nonempty]
    refine ⟨?_, hhead⟩
    refine hspells.append ((Lexer.spellsAll_sign .leftBracket).append ((Lexer.spellsAll_int hn).append
      (Lexer.spellsAll_sign .rightBracket) (by simp) rfl rfl rfl) (by simp) rfl ?_
        (Punct.stops_of_isNameChar (fun h => by cases h) hc)) (by simp) rfl rfl (by cases ht <;> rfl)
    rw [htoString]
    rfl

end Ty

/-! ### Components -/

namespace SwizzleSet

variable {set : SwizzleSet} {components : List Nat} {word : String}

/-- Whether a word has, for each set, a letter that selects nothing. -/
def hasOther (word : String) : Bool :=
  [SwizzleSet.xyzw, .rgba, .stpq].all fun set => word.toList.any fun c => !set.letters.contains c

theorem mem_letters_of_mem_word {c : Char}
    (h : c ∈ (set.word components).toList) : c ∈ set.letters := by
  rw [word, String.toList_ofList, List.mem_filterMap] at h
  obtain ⟨i, -, hi⟩ := h
  exact List.mem_of_getElem? hi

theorem hasOther_word (set : SwizzleSet) (components : List Nat) :
    hasOther (set.word components) = false := by
  rw [Bool.eq_false_iff]
  intro h
  have hset := List.all_eq_true.mp h set (by cases set <;> decide)
  obtain ⟨c, hc, hnot⟩ := List.any_eq_true.mp hset
  have hmem := mem_letters_of_mem_word hc
  simp [hmem] at hnot

theorem hasOther_of_ofKeyword? {ty : Ty} (h : Ty.ofKeyword? word = some ty) :
    hasOther word = true := by
  unfold Ty.ofKeyword? at h
  split at h
  case h_30 =>
    obtain ⟨s, hs, rfl⟩ := Option.map_eq_some_iff.mp h
    have hall : ∀ s ∈ Sampler.all, hasOther s.name = true := by decide +kernel
    have hname : s.name = word := by simpa using List.find?_some hs
    exact hname ▸ hall s (List.mem_of_find?_eq_some hs)
  all_goals decide

/-- A word without such letters is a name. -/
theorem ofWord_of_hasOther (h : hasOther word = false) : Token.ofWord word = .identifier word := by
  have hkeyword : Keyword.ofText? word = none := by
    refine List.find?_eq_none.mpr fun k hk heq => ?_
    have hall : ∀ k ∈ Keyword.all, hasOther k.text = true := by decide +kernel
    rw [← beq_iff_eq.mp heq, hall k hk] at h
    cases h
  have hprecision : Precision.ofKeyword? word = none := by
    unfold Precision.ofKeyword?
    split
    · cases h
    · cases h
    · cases h
    · rfl
  have htype : Ty.ofKeyword? word = none := by
    rw [Option.eq_none_iff_forall_ne_some]
    intro ty hty
    rw [hasOther_of_ofKeyword? hty] at h
    cases h
  unfold Token.ofWord
  split
  · cases h
  · cases h
  · rw [hkeyword, hprecision, htype]

/-- **Letters that select components are never a word with another meaning.** -/
theorem isName_word (hne : components ≠ [])
    (h : ∀ i ∈ components, i < 4) : IsName (set.word components) := by
  have hother := set.hasOther_word components
  have hletters : ∀ c ∈ (set.word components).toList, Text.isLetter c = true ∧ c ≠ '_' := by
    have hall : set.letters.all (fun c => Text.isLetter c && c != '_') = true := by cases set <;> rfl
    rw [List.all_eq_true] at hall
    exact fun c hc => by simpa using hall c (mem_letters_of_mem_word hc)
  have hchars : (set.word components).toList ≠ [] := by
    obtain ⟨i, rest, rfl⟩ := List.exists_cons_of_ne_nil hne
    have hlength : i < set.letters.length := by
      have hi := h i List.mem_cons_self
      cases set <;> exact hi
    simp [word, hlength]
  generalize set.word components = w at hother hletters hchars
  obtain ⟨c, cs, hw⟩ := List.exists_cons_of_ne_nil hchars
  refine ⟨⟨c, cs, hw, (hletters c (by simp [hw])).1, ?_⟩, ?_, ?_, ofWord_of_hasOther hother⟩
  · refine List.all_eq_true.mpr fun d hd => ?_
    simp [Text.isNameChar, (hletters d (by simp [hw, hd])).1]
  · rw [Token.isReservedWord, Bool.eq_false_iff]
    intro hmem
    have hall : ∀ w ∈ Token.reservedWords, hasOther w = true := by decide +kernel
    rw [hall w (List.contains_iff_mem.mp hmem)] at hother
    cases hother
  · exact Lexer.hasDoubleUnderscore_eq_false fun hmem => (hletters _ hmem).2 rfl

end SwizzleSet

end GlslEs
