import GlslEs.Proofs.Reading.Lexer
import GlslEs.Token.Cursor

/-!
# What reading yields

`Yields S p Q` says that whatever `p` reads where the structures `S` are known satisfies `Q`,
together with the structures that are known afterwards.  A reader that fails yields nothing, so
it satisfies every `Q`.  `Keeps` and `Learns` are for readers that learn no structure, and for those
whose result tells which structures they learn.

* `Yields.bind`, `Keeps.bind`, `Learns.bind`: readers one after the other.
* One lemma for each of the readers that every other reader is made of.
-/

namespace GlslEs

variable {α β : Type} {S : List String}

/-- The tokens in front of a cursor are those of a text, and so are the names of the structures `S`
that it knows. -/
structure Cursor.Holds (S : List String) (c : Cursor) : Prop where
  tokens : ∀ l ∈ c.rest, l.token.IsRead
  structs : c.structs = S
  names : ∀ name ∈ S, IsName name

namespace Cursor.Holds

variable {c : Cursor}

theorem peek (h : c.Holds S) : c.peek.token.IsRead := by
  unfold Cursor.peek
  cases hr : c.rest with
  | nil => trivial
  | cons l rest => exact h.tokens l (by simp [hr])

theorem next (h : c.Holds S) : c.next.Holds S := by
  unfold Cursor.next
  split
  · exact h
  · exact h
  · rename_i l rest _ hr
    exact ⟨fun x hx => h.tokens x (by simp [hr, hx]), h.structs, h.names⟩

end Cursor.Holds

namespace Parse

/-- Whatever is read from the cursor satisfies `Q`, together with the structures known then. -/
def YieldsAt (c : Cursor) (p : Parse α) (Q : α → List String → Prop) : Prop :=
  ∀ a c', p c = .ok (a, c') → ∃ S', c'.Holds S' ∧ Q a S'

/-- Whatever is read where the structures `S` are known satisfies `Q`, together with the structures
known then. -/
def Yields (S : List String) (p : Parse α) (Q : α → List String → Prop) : Prop :=
  ∀ c, Cursor.Holds S c → YieldsAt c p Q

/-- Whatever is read satisfies `P`, and no structure is learnt. -/
abbrev Keeps (S : List String) (p : Parse α) (P : α → Prop) : Prop := Yields S p fun a S' => P a ∧ S' = S

/-- Whatever is read satisfies `P`, and the structures `g` of it are learnt. -/
abbrev Learns (S : List String) (p : Parse α) (P : α → Prop) (g : α → List String) : Prop :=
  Yields S p fun a S' => P a ∧ S' = g a ++ S

variable {p : Parse α} {f : α → Parse β} {P : α → Prop} {Q : α → List String → Prop}
  {R : β → List String → Prop}

theorem Yields.pure {a : α} (h : Q a S) : Yields S (Pure.pure a) Q := by
  rintro c hc _ _ ⟨⟩
  exact ⟨S, hc, h⟩

theorem Yields.bind (hp : Yields S p Q) (hf : ∀ a S', Q a S' → Yields S' (f a) R) :
    Yields S (p >>= f) R := by
  intro c hc b c₂ hb
  obtain ⟨⟨a, c₁⟩, hpc, hfa⟩ := Except.bind_eq_ok_iff.mp hb
  obtain ⟨S₁, h₁, ha⟩ := hp c hc a c₁ hpc
  exact hf a S₁ ha c₁ h₁ b c₂ hfa

theorem Keeps.bind (hp : Keeps S p P) (hf : ∀ a, P a → Yields S (f a) R) : Yields S (p >>= f) R := by
  refine Yields.bind hp ?_
  rintro a _ ⟨ha, rfl⟩
  exact hf a ha

theorem Learns.bind {g : α → List String} (hp : Learns S p P g)
    (hf : ∀ a, P a → Yields (g a ++ S) (f a) R) : Yields S (p >>= f) R := by
  refine Yields.bind hp ?_
  rintro a _ ⟨ha, rfl⟩
  exact hf a ha

theorem Keeps.map {f : α → β} {P' : β → Prop} (hp : Keeps S p P) (hf : ∀ a, P a → P' (f a)) :
    Keeps S (f <$> p) P' := by
  rw [← bind_pure_comp]
  exact hp.bind fun a ha => .pure ⟨hf a ha, rfl⟩

theorem yields_fail (problem : SyntaxProblem) : Yields S (fail problem) Q := by
  rintro _ _ _ _ ⟨⟩

theorem yields_failPassed (problem : SyntaxProblem) : Yields S (failPassed problem) Q := by
  rintro _ _ _ _ ⟨⟩

theorem yields_fail_bind (problem : SyntaxProblem) : Yields S (fail problem >>= f) R := by
  rintro _ _ _ _ ⟨⟩

theorem yields_failPassed_bind (problem : SyntaxProblem) : Yields S (failPassed problem >>= f) R := by
  rintro _ _ _ _ ⟨⟩

/-! Looking ahead leaves the cursor where it is. -/

theorem keeps_look {g : Cursor → α} (h : ∀ c : Cursor, c.Holds S → P (g c)) :
    Keeps S (fun c => .ok (g c, c)) P := by
  rintro c hc _ _ ⟨⟩
  exact ⟨S, hc, h c hc, rfl⟩

theorem keeps_get : Keeps S get (Cursor.Holds S) := keeps_look fun _ hc => hc

theorem yields_get_bind {f : Cursor → Parse β} (h : ∀ c : Cursor, c.Holds S → YieldsAt c (f c) R) :
    Yields S (get >>= f) R := h

theorem keeps_here : Keeps S here fun _ => True := keeps_look fun _ _ => trivial

theorem keeps_token : Keeps S token Token.IsRead := keeps_look fun _ hc => hc.peek

theorem keeps_check {sign : Punct} : Keeps S (check sign) fun _ => True := keeps_look fun _ _ => trivial

theorem keeps_checkWord {word : Keyword} : Keeps S (checkWord word) fun _ => True :=
  keeps_look fun _ _ => trivial

theorem keeps_isStruct {word : String} : Keeps S (isStruct word) (· = S.contains word) :=
  keeps_look fun _ hc => hc.structs ▸ rfl

theorem keeps_atVoidList : Keeps S atVoidList fun _ => True := by
  refine keeps_get.bind fun c _ => ?_
  split
  · exact .pure ⟨trivial, rfl⟩
  · exact .pure ⟨trivial, rfl⟩

/-! Passing a token. -/

theorem keeps_advance : Keeps S advance (·.token.IsRead) := by
  rintro c hc _ _ ⟨⟩
  exact ⟨S, hc.next, hc.peek, rfl⟩

theorem keeps_acceptToken {t : Token} : Keeps S (acceptToken t) fun _ => True := by
  intro c hc a c' h
  unfold acceptToken at h
  split at h
  · cases h
    exact ⟨S, hc.next, trivial, rfl⟩
  · cases h
    exact ⟨S, hc, trivial, rfl⟩

theorem keeps_accept {sign : Punct} : Keeps S (accept sign) fun _ => True := keeps_acceptToken

theorem keeps_acceptWord {word : Keyword} : Keeps S (acceptWord word) fun _ => True := keeps_acceptToken

theorem keeps_expectToken {t : Token} {what : Expected} : Keeps S (expectToken t what) fun _ => True := by
  intro c hc a c' h
  unfold expectToken at h
  split at h
  · cases h
    exact ⟨S, hc.next, trivial, rfl⟩
  · cases h

theorem keeps_expect {sign : Punct} {what : Expected} : Keeps S (expect sign what) fun _ => True :=
  keeps_expectToken

theorem keeps_expectWord {word : Keyword} {what : Expected} :
    Keeps S (expectWord word what) fun _ => True := keeps_expectToken

theorem peek_of_name {c c' : Cursor} {what : Expected} {word : String}
    (h : name what c = .ok (word, c')) : c.peek.token = .identifier word ∧ c' = c.next := by
  unfold name at h
  split at h
  · rename_i hpeek
    cases h
    exact ⟨hpeek, rfl⟩
  · cases h

theorem keeps_name {what : Expected} : Keeps S (name what) IsName := by
  intro c hc a c' h
  obtain ⟨hpeek, rfl⟩ := peek_of_name h
  have hread := hc.peek
  rw [hpeek] at hread
  exact ⟨S, hc.next, hread, rfl⟩

theorem keeps_precision? : Keeps S precision? fun _ => True := by
  intro c hc a c' h
  unfold precision? at h
  split at h
  · cases h
    exact ⟨S, hc.next, trivial, rfl⟩
  · cases h
    exact ⟨S, hc, trivial, rfl⟩

/-- Each of the items divided by commas is what one item yields. -/
theorem keeps_commaSeparated {item : Parse α} (hitem : Keeps S item P) (fuel : Nat) :
    Keeps S (commaSeparated item fuel) fun as => ∀ a ∈ as, P a := by
  induction fuel with
  | zero => exact yields_fail _
  | succ fuel ih =>
    refine hitem.bind fun first hfirst => keeps_accept.bind fun more _ => ?_
    split
    · exact ih.bind fun rest hrest => .pure ⟨by simpa [hfirst] using hrest, rfl⟩
    · exact .pure ⟨by simpa using hfirst, rfl⟩

end Parse

end GlslEs
