import GlslEs.Proofs.Writing.Words

/-!
# The texts of constants and of array types

Every constant has a text that can be read, though not always as one token: a minus sign is a token of its
own, and what is not finite is written as a quotient.  The text of a floating-point number is read as some
floating-point number; nothing is said here about which.

* `Decimal.exists_readToken_brief`: **the digits of a decimal are read as one number**.
* `Constant.spellsNumber_spelling`: **the text of a constant is read as tokens**.
* `Ty.exists_lexesAs`: the text of a type, whose length may be too large to be read.
-/

namespace GlslEs

namespace Lexer

/-! ### Digits, point and exponent -/

theorem fractionParts_point {fraction tail : List Char} (h : ∀ c ∈ fraction, c.isDigit = true)
    (htail : ∀ d ∈ tail.head?, d.isDigit = false) :
    fractionParts ('.' :: (fraction ++ tail)) = (['.'], fraction, tail) := by
  simp only [fractionParts, takeWhile_append_stop h htail, List.drop_left]

theorem fractionParts_of_ne {c : Char} (h : c ≠ '.') (cs : List Char) :
    fractionParts (c :: cs) = ([], [], c :: cs) := by
  unfold fractionParts
  split
  · rename_i hcs
    exact absurd (List.cons.inj hcs).1 h
  · rfl

theorem exponentSign_of_isDigit {c : Char} (h : c.isDigit = true) (cs : List Char) :
    exponentSign (c :: cs) = [] := by
  unfold exponentSign
  split
  · rename_i hcs
    rw [(List.cons.inj hcs).1] at h
    cases h
  · rename_i hcs
    rw [(List.cons.inj hcs).1] at h
    cases h
  · rfl

/-- The digits of an exponent behind its sign. -/
theorem readExponent_digits {sign : List Char} {n : Nat} (h : exponentSign (sign ++ Nat.toDigits 10 n) = sign) :
    ∃ value, readExponent ('e' :: (sign ++ Nat.toDigits 10 n)) =
      .ok (some ⟨'e' :: (sign ++ Nat.toDigits 10 n), value, []⟩) := by
  have htake : (Nat.toDigits 10 n ++ []).takeWhile Char.isDigit = Nat.toDigits 10 n :=
    takeWhile_append_stop isDigit_of_mem_toDigits (by simp)
  rw [List.append_nil] at htake
  have hne : (Nat.toDigits 10 n).isEmpty = false := by
    rw [List.isEmpty_eq_false_iff]
    exact Nat.toDigits_ne_nil
  rw [readExponent_cons rfl]
  simp only [h, List.drop_left, htake, hne, Bool.false_eq_true, if_false, List.drop_length, List.cons_append]
  exact ⟨_, rfl⟩

theorem exists_readExponent (n : Int) :
    ∃ value, readExponent ('e' :: (toString n).toList) = .ok (some ⟨'e' :: (toString n).toList, value, []⟩) := by
  cases n with
  | ofNat n =>
    have hdigits : (toString (Int.ofNat n)).toList = [] ++ Nat.toDigits 10 n := Nat.toList_repr
    rw [hdigits]
    refine readExponent_digits ?_
    obtain ⟨c, cs, hcons⟩ := List.exists_cons_of_ne_nil (Nat.toDigits_ne_nil (n := n) (b := 10))
    rw [List.nil_append, hcons]
    exact exponentSign_of_isDigit (isDigit_of_mem_toDigits c (hcons ▸ List.mem_cons_self)) cs
  | negSucc n =>
    have hdigits : (toString (Int.negSucc n)).toList = ['-'] ++ Nat.toDigits 10 (n + 1) := by
      show ("-" ++ Nat.repr (n + 1)).toList = _
      simp
    rw [hdigits]
    exact readExponent_digits rfl

theorem readToken_of_readDecimal {c : Char} {cs : List Char} {r : Token × Nat}
    (hstart : c.isDigit = true ∨ c = '.' ∧ ∃ d ∈ cs.head?, d.isDigit = true)
    (hhex : ∀ d ∈ cs.head?, Decimal.IsNumberChar d) (h : readDecimal (c :: cs) = .ok r) :
    readToken c cs = .ok r := by
  have hletter : Text.isLetter c = false := by
    rcases hstart with hdigit | ⟨rfl, -⟩
    · exact isLetter_of_isDigit hdigit
    · rfl
  have hnumber : (c.isDigit || (c == '.' && (cs.head?.map Char.isDigit).getD false)) = true := by
    rcases hstart with hdigit | ⟨rfl, d, hd, hdigit⟩
    · simp [hdigit]
    · have hd : cs.head? = some d := hd
      simp [hd, hdigit]
  unfold readToken
  rw [if_neg (by simp [hletter]), if_pos hnumber, readNumber_eq fun _ d hd => ?_, h]
  rcases hhex d hd with hdigit | rfl | rfl | rfl
  · constructor <;> rintro rfl <;> cases hdigit
  · decide
  · decide
  · decide

end Lexer

namespace Decimal

open Lexer

theorem positionalParts_ne_nil (d : Decimal) : d.positionalParts.1 ≠ [] := by
  have hne : digitChars d.significand ≠ [] := Nat.toDigits_ne_nil
  unfold positionalParts
  dsimp only
  split
  · simp [hne]
  · split
    · rw [List.splitAt_eq]
      simp only [ne_eq, List.take_eq_nil_iff, hne, or_false]
      omega
    · simp

/-- Digits with a point are read as a number. -/
theorem exists_readDecimal_point (whole : List Char) {fraction : List Char} (hwhole : ∀ c ∈ whole, c.isDigit = true)
    (hfraction : ∀ c ∈ fraction, c.isDigit = true) :
    ∃ x, readDecimal (whole ++ '.' :: fraction) = .ok (.float x, (whole ++ '.' :: fraction).length) := by
  have htake : (whole ++ '.' :: fraction).takeWhile Char.isDigit = whole :=
    takeWhile_append_stop hwhole fun d hd => by rw [← Option.mem_some_iff.mp hd]; rfl
  have hparts : fractionParts ('.' :: (fraction ++ [])) = (['.'], fraction, []) :=
    fractionParts_point hfraction (by simp)
  rw [List.append_nil] at hparts
  rw [readDecimal_none htake List.drop_left hparts rfl]
  exact ⟨_, by simp [floatEnd]; rfl⟩

/-- Digits with an exponent are read as a number. -/
theorem exists_readDecimal_exponent (whole point fraction : List Char) (n : Int)
    (hwhole : ∀ c ∈ whole, c.isDigit = true) (hfraction : ∀ c ∈ fraction, c.isDigit = true)
    (hpoint : point = ['.'] ∨ point = [] ∧ fraction = []) :
    ∃ x, readDecimal (whole ++ (point ++ (fraction ++ 'e' :: (toString n).toList))) =
      .ok (.float x, (whole ++ (point ++ (fraction ++ 'e' :: (toString n).toList))).length) := by
  obtain ⟨value, hexponent⟩ := exists_readExponent n
  generalize (toString n).toList = power at hexponent ⊢
  have he : ∀ d ∈ ('e' :: power).head?, d.isDigit = false := fun d hd => by
    rw [← Option.mem_some_iff.mp hd]
    rfl
  have hparts : fractionParts (point ++ (fraction ++ 'e' :: power)) = (point, fraction, 'e' :: power) := by
    rcases hpoint with rfl | ⟨rfl, rfl⟩
    · exact fractionParts_point hfraction he
    · exact fractionParts_of_ne (by decide) power
  have htake : (whole ++ (point ++ (fraction ++ 'e' :: power))).takeWhile Char.isDigit = whole := by
    refine takeWhile_append_stop hwhole fun d hd => ?_
    rcases hpoint with rfl | ⟨rfl, rfl⟩
    · rw [← Option.mem_some_iff.mp hd]
      rfl
    · exact he d hd
  rw [readDecimal_some htake List.drop_left hparts hexponent]
  exact ⟨_, by simp [floatEnd]; rfl⟩

/-- **The digits of a decimal are read as one number.** -/
theorem exists_readToken_brief (d : Decimal) :
    ∃ c cs x, d.brief.toList = c :: cs ∧ readToken c cs = .ok (.float x, cs.length + 1) ∧
      (c.isDigit = true ∨ c = '.') := by
  have hchars := isNumberChar_of_mem_brief (d := d)
  -- It suffices to read the text as a number, for it starts like one.
  suffices h : ∃ c cs x, d.brief.toList = c :: cs ∧ readDecimal (c :: cs) = .ok (.float x, cs.length + 1) ∧
      (c.isDigit = true ∨ c = '.' ∧ ∃ d ∈ cs.head?, d.isDigit = true) by
    obtain ⟨c, cs, x, hcs, hread, hstart⟩ := h
    refine ⟨c, cs, x, hcs, readToken_of_readDecimal hstart (fun d hd => ?_) hread, hstart.imp_right And.left⟩
    exact hchars d (hcs ▸ List.mem_cons_of_mem c (List.mem_of_mem_head? hd))
  have hdigits : ∀ c ∈ digitChars d.significand, c.isDigit = true := isDigit_of_mem_toDigits
  unfold brief
  split
  · unfold scientific
    dsimp only
    split
    · rename_i hnil
      exact absurd hnil Nat.toDigits_ne_nil
    · rename_i c hcs
      rw [hcs] at hdigits
      obtain ⟨x, hread⟩ := exists_readDecimal_exponent [c] [] [] (d.point - 1)
        hdigits (by simp) (.inr ⟨rfl, rfl⟩)
      exact ⟨c, _, x, by simp, hread, .inl (hdigits c List.mem_cons_self)⟩
    · rename_i c cs _ hcs
      rw [hcs] at hdigits
      obtain ⟨x, hread⟩ := exists_readDecimal_exponent [c] ['.'] cs (d.point - 1)
        (by simpa using hdigits c List.mem_cons_self) (fun x hx => hdigits x (List.mem_cons_of_mem c hx)) (.inl rfl)
      exact ⟨c, _, x, by simp, hread, .inl (hdigits c List.mem_cons_self)⟩
  · obtain ⟨hwhole, hfraction⟩ := d.isDigit_of_mem_positionalParts
    have hne := d.positionalParts_ne_nil
    unfold pointed
    split
    · rename_i c fraction hparts
      rw [hparts] at hfraction
      obtain ⟨x, hread⟩ := exists_readDecimal_point [] (by simp) hfraction
      exact ⟨'.', c :: fraction, x, by simp, hread, .inr ⟨rfl, c, rfl, hfraction c List.mem_cons_self⟩⟩
    · rename_i whole fraction _ hparts
      rw [hparts] at hwhole hfraction hne
      obtain ⟨c, cs, rfl⟩ := List.exists_cons_of_ne_nil hne
      obtain ⟨x, hread⟩ := exists_readDecimal_point _ hwhole hfraction
      exact ⟨c, cs ++ '.' :: fraction, x, by simp, hread, .inl (hwhole c List.mem_cons_self)⟩

end Decimal

/-! ### Constants -/

namespace Lexer

/-- What a text with a number at its end may start with. -/
def StartsNumber (cs : List Char) : Prop :=
  ∀ d ∈ cs.head?, Text.isNameChar d = true ∨ d = '(' ∨ d = '.' ∨ d = '-'

/-- The text of a number, with what it is read as. -/
structure SpellsNumber (text : List Char) : Prop where
  spells : ∃ ts t, SpellsAll text ts ∧ ts.getLast? = some t ∧
    ∀ d, (!Text.isNameChar d && d != '.') = true → t.stops d = true
  starts : StartsNumber text

theorem spellsNumber_singleton {text : List Char} {t : Token} (h : SpellsAll text [t]) (hstarts : StartsNumber text)
    (hstops : ∀ d, (!Text.isNameChar d && d != '.') = true → t.stops d = true) : SpellsNumber text :=
  ⟨⟨[t], t, h, rfl, hstops⟩, hstarts⟩

theorem spellsNumber_brief (d : Decimal) : SpellsNumber d.brief.toList := by
  obtain ⟨c, cs, x, hcs, hread, hc⟩ := d.exists_readToken_brief
  refine spellsNumber_singleton (t := .float x) ?_ ?_ fun _ h => h
  · rw [hcs]
    exact (spells_of_readToken hread).all fun b hb =>
      (Decimal.isNumberChar_of_mem_brief b (hcs ▸ List.mem_of_getLast? hb)).isBlank
  · rw [hcs]
    rintro _ ⟨⟩
    exact hc.imp isNameChar_of_isDigit fun h => .inr (.inl h)

/-- A number behind a minus sign. -/
theorem SpellsNumber.minus {text : List Char} (h : SpellsNumber text)
    (hc : ∀ d ∈ text.head?, Text.isNameChar d = true ∨ d = '.') : SpellsNumber ('-' :: text) := by
  obtain ⟨⟨ts, t, hspells, ht, hstops⟩, -⟩ := h
  obtain ⟨c, cs, rfl⟩ := List.exists_cons_of_ne_nil hspells.nonempty
  refine ⟨⟨.punct .minus :: ts, t, ?_, ?_, hstops⟩, ?_⟩
  · refine SpellsAll.append (spellsAll_sign .minus) hspells ?_ rfl rfl ?_
    · rintro ⟨⟩
      cases ht
    · rcases hc c rfl with hname | rfl
      · exact Punct.stops_of_isNameChar (fun h => by cases h) hname
      · decide
  · cases ts with
    | nil => cases ht
    | cons u us => exact ht
  · rintro _ ⟨⟩
    exact .inr (.inr (.inr rfl))

theorem spellsNumber_digits {n : Nat} (hn : n ≤ 0xFFFFFFFF) : SpellsNumber (Nat.toDigits 10 n) := by
  refine spellsNumber_singleton (t := .int (UInt32.ofNat n)) ?_ (fun d hd => .inl ?_) fun _ h => h
  · have hspells := spellsAll_int hn
    rwa [show (toString n).toList = Nat.toDigits 10 n from Nat.toList_repr] at hspells
  · exact isNameChar_of_isDigit (isDigit_of_mem_toDigits d (List.mem_of_mem_head? hd))

end Lexer

namespace Single

open Lexer

/-- The two zeros and ones of the quotients. -/
theorem spellsAll_quotient (c : Char) (h : c = '0' ∨ c = '1') :
    ∃ x, SpellsAll [c, '.'] [.float x] := by
  rcases h with rfl | rfl
  · have hspells : Spells ['0', '.'] (.float _) := spells_of_readToken rfl
    exact ⟨_, hspells.all (by simp; decide)⟩
  · have hspells : Spells ['1', '.'] (.float _) := spells_of_readToken rfl
    exact ⟨_, hspells.all (by simp; decide)⟩

/-- Two numbers in parentheses with a slash between them. -/
theorem spellsNumber_quotient {dividend : List Char} {ts : List Token} {t : Token} {c : Char}
    (h : SpellsAll dividend ts) (ht : ts.getLast? = some t) (hc : dividend.head? = some c)
    (hopen : Punct.leftParen.stops c = true) (hslash : t.stops '/' = true) :
    SpellsNumber ('(' :: (dividend ++ ['/', '0', '.', ')'])) := by
  obtain ⟨zero, hzero⟩ := spellsAll_quotient '0' (.inl rfl)
  have hdivisor : SpellsAll ['0', '.', ')'] [.float zero, .punct .rightParen] :=
    SpellsAll.append hzero (spellsAll_sign .rightParen) (by simp) rfl rfl rfl
  have hbehind : SpellsAll ['/', '0', '.', ')'] [.punct .slash, .float zero, .punct .rightParen] :=
    SpellsAll.append (spellsAll_sign .slash) hdivisor (by simp) rfl rfl (by decide)
  have hinside := SpellsAll.append h hbehind (by simp) ht rfl hslash
  have hwhole := SpellsAll.append (spellsAll_sign .leftParen) hinside (by simp) rfl
    (by rw [List.head?_append_of_ne_nil _ h.nonempty, hc]) hopen
  refine ⟨⟨_, .punct .rightParen, hwhole, ?_, fun d _ => rfl⟩, ?_⟩
  · exact List.getLast?_append_of_ne_nil (.punct .leftParen :: ts) (List.cons_ne_nil _ _)
  · rintro _ ⟨⟩
    exact .inr (.inl rfl)

theorem spellsNumber_spelling (x : Single) : SpellsNumber x.spelling.toList := by
  unfold spelling
  split
  · obtain ⟨zero, hzero⟩ := spellsAll_quotient '0' (.inl rfl)
    exact spellsNumber_quotient hzero rfl rfl rfl rfl
  · obtain ⟨one, hone⟩ := spellsAll_quotient '1' (.inr rfl)
    split
    · have hminus : SpellsAll ['-', '1', '.'] [.punct .minus, .float one] :=
        SpellsAll.append (spellsAll_sign .minus) hone (by simp) rfl rfl (by decide)
      exact spellsNumber_quotient hminus rfl rfl rfl rfl
    · exact spellsNumber_quotient hone rfl rfl rfl rfl
  · rename_i negative m e _
    dsimp only
    generalize (if m = 0 then (⟨0, 0⟩ : Decimal) else Decimal.shortest FloatFormat.single m e) = d
    split
    · obtain ⟨c, cs, -, hcs, -, hc⟩ := d.exists_readToken_brief
      rw [String.toList_append]
      refine (spellsNumber_brief d).minus fun b hb => ?_
      rw [hcs] at hb
      obtain rfl : c = b := Option.mem_some_iff.mp hb
      exact hc.imp_left isNameChar_of_isDigit
    · exact spellsNumber_brief d

end Single

namespace Lexer

theorem spellsNumber_int (n : Int32) : SpellsNumber (toString n.toInt).toList := by
  have hlt := n.toInt_lt
  have hle := n.le_toInt
  cases h : n.toInt with
  | ofNat m =>
    rw [show (toString (Int.ofNat m)).toList = Nat.toDigits 10 m from Nat.toList_repr]
    rw [h, Int.ofNat_eq_natCast] at hlt
    exact spellsNumber_digits (by omega)
  | negSucc m =>
    have hdigits : (toString (Int.negSucc m)).toList = '-' :: Nat.toDigits 10 (m + 1) := by
      show ("-" ++ Nat.repr (m + 1)).toList = _
      simp
    rw [h] at hle
    rw [hdigits]
    refine (spellsNumber_digits (by omega)).minus fun d hd => .inl ?_
    exact isNameChar_of_isDigit (isDigit_of_mem_toDigits d (List.mem_of_mem_head? hd))

end Lexer

/-- **The text of a constant is read as tokens.** -/
theorem Constant.spellsNumber_spelling (value : Constant) : Lexer.SpellsNumber value.spelling.toList := by
  cases value with
  | float x => exact x.spellsNumber_spelling
  | int n => exact Lexer.spellsNumber_int n
  | uint n =>
    have hn := n.toNat_lt
    refine Lexer.spellsNumber_singleton (Lexer.spellsAll_uint (n := n.toNat) (by omega)) ?_ fun _ h => h
    have htext : (toString n.toNat ++ "u").toList = Nat.toDigits 10 n.toNat ++ ['u'] := by simp
    show Lexer.StartsNumber (toString n.toNat ++ "u").toList
    rw [htext]
    intro d hd
    rw [List.head?_append_of_ne_nil _ Nat.toDigits_ne_nil] at hd
    exact .inl (Lexer.isNameChar_of_isDigit (Lexer.isDigit_of_mem_toDigits d (List.mem_of_mem_head? hd)))
  | bool b =>
    have hstops (d : Char) (h : (!Text.isNameChar d && d != '.') = true) : (!Text.isNameChar d) = true :=
      (Bool.and_eq_true _ _ ▸ h).1
    cases b
    · have hspells := Lexer.spellsAll_constant (show Constant.Readable (.bool false) from trivial)
      exact Lexer.spellsNumber_singleton hspells
        (fun d hd => .inl (by rw [← Option.mem_some_iff.mp hd]; rfl)) hstops
    · have hspells := Lexer.spellsAll_constant (show Constant.Readable (.bool true) from trivial)
      exact Lexer.spellsNumber_singleton hspells
        (fun d hd => .inl (by rw [← Option.mem_some_iff.mp hd]; rfl)) hstops

/-! ### Types -/

namespace Lexer

/-- The length of an array in front of its bracket. -/
theorem exists_lexesAs_length (n : Nat) :
    ∃ r, LexesAs (Nat.toDigits 10 n ++ [']']) r ∧ EndsLikeWord r := by
  by_cases hn : n ≤ 0xFFFFFFFF
  · have hspells := spellsAll_int hn
    rw [show (toString n).toList = Nat.toDigits 10 n from Nat.toList_repr] at hspells
    exact ⟨_, hspells.append (spellsAll_sign .rightBracket) (by simp) rfl rfl rfl,
      .punct .rightBracket, rfl, fun d _ => rfl⟩
  · refine ⟨none, ⟨by simp, ?_, fun rest r' _ _ fresh => ?_⟩, endsLikeWord_none⟩
    · rw [List.getLast?_append_of_ne_nil _ (List.cons_ne_nil _ _)]
      rintro _ ⟨⟩
      rfl
    · obtain ⟨c, cs, hcs⟩ := List.exists_cons_of_ne_nil (Nat.toDigits_ne_nil (n := n) (b := 10))
      have hdigits : Nat.toDigits 10 n ++ (']' :: rest) = c :: (cs ++ ']' :: rest) := by rw [hcs]; rfl
      rw [List.append_assoc, List.singleton_append, hdigits]
      have hread := readToken_toDigits hdigits fun d hd => by rw [← Option.mem_some_iff.mp hd]; rfl
      rw [readInteger_tooLarge (Nat.lt_of_not_le hn)] at hread
      have hpiece : nextPiece fresh c (cs ++ ']' :: rest) =
          .error (.integerTooLarge (String.ofList (Nat.toDigits 10 n))) := by
        rw [nextPiece_eq_of_isDigit (isDigit_of_toDigits_append hdigits), hread]
        rfl
      exact .error hpiece

end Lexer

/-- The text of a type, whose length may be too large to be read. -/
theorem Ty.exists_lexesAs {ty : Ty} (h : Lexer.Wordlike false ty.baseName) :
    ∃ r, Lexer.LexesAs ty.name.toList r ∧ Lexer.EndsLikeWord r ∧
      ∀ c ∈ ty.name.toList.head?, Text.isNameChar c = true := by
  have hword := Lexer.lexesAs_word h
  have hends := Lexer.endsLikeWord_wordReading ty.baseName
  have hhead : ∀ c ∈ ty.baseName.toList.head?, Text.isNameChar c = true := fun c hc =>
    h.forall_isNameChar c (List.mem_of_mem_head? hc)
  cases harray : ty.array with
  | none =>
    rw [name, harray]
    exact ⟨_, hword, hends, hhead⟩
  | some n =>
    have htext : ty.name.toList = ty.baseName.toList ++ '[' :: (Nat.toDigits 10 n ++ [']']) := by
      simp [name, harray]
    obtain ⟨r, hlength, hr⟩ := Lexer.exists_lexesAs_length n
    obtain ⟨c, cs, hdigits⟩ := List.exists_cons_of_ne_nil (Nat.toDigits_ne_nil (b := 10) (n := n))
    have hc : Text.isNameChar c = true :=
      Lexer.isNameChar_of_isDigit (Lexer.isDigit_of_mem_toDigits c (hdigits ▸ List.mem_cons_self))
    have hbracket := Lexer.SpellsAll.append (Lexer.spellsAll_sign .leftBracket) hlength hr.ne_nil rfl
      (c := c) (by rw [hdigits]; rfl) (Punct.stops_of_isNameChar (fun h => by cases h) hc)
    have hbehind : Lexer.EndsLikeWord (r.map ([.punct .leftBracket] ++ ·)) := hr.bind (some _)
    obtain ⟨t, ht, hstops⟩ := hends
    rw [htext, List.head?_append_of_ne_nil _ hword.nonempty]
    refine ⟨_, Lexer.LexesAs.append hword hbracket hbehind.ne_nil ht rfl (hstops '[' rfl) ?_,
      hbehind.bind _, hhead⟩
    intro _ u hu
    obtain ⟨v, hv, hstops'⟩ := hbehind
    rw [hv] at hu
    rwa [← Option.mem_some_iff.mp hu]

end GlslEs
