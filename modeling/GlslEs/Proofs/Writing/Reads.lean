import GlslEs.Expr.Parser

/-!
# What reading does with known tokens

Places never decide what is read.  A `View` is what a cursor has in front of it apart from them, and
`Parse.Reads p v w Q` says that `p` succeeds from every cursor with the view `v`, that it leaves the view
`w`, and that what it reads satisfies `Q`.

* `Parse.Reads.bind`: readers one after the other.
* One lemma for each of the readers that every other reader is made of.
-/

namespace GlslEs

/-- The tokens in front of a cursor and the structures that it knows. -/
structure View where
  tokens : List Token
  structs : List String

/-- A cursor in front of a list of tokens, where structures are known. -/
def Cursor.knowing (S : List String) (lexemes : List Lexeme) : Cursor :=
  { ofLexemes lexemes with structs := S }

/-- What a cursor has in front of it, apart from places. -/
def Cursor.view (c : Cursor) : View := ⟨c.rest.map (·.token), c.structs⟩

namespace Cursor

variable {c : Cursor} {t : Token} {ts : List Token} {S : List String}

theorem exists_rest_of_view (h : c.view = ⟨t :: ts, S⟩) :
    ∃ loc rest, c.rest = ⟨t, loc⟩ :: rest ∧ rest.map (·.token) = ts := by
  have hmap : c.rest.map (·.token) = t :: ts := congrArg View.tokens h
  obtain ⟨⟨t', loc⟩, rest, hrest, rfl, hts⟩ := List.map_eq_cons_iff.mp hmap
  exact ⟨loc, rest, hrest, hts⟩

theorem structs_of_view (h : c.view = ⟨ts, S⟩) : c.structs = S :=
  congrArg View.structs h

theorem length_rest_of_view (h : c.view = ⟨ts, S⟩) : c.rest.length = ts.length := by
  have hmap : c.rest.map (·.token) = ts := congrArg View.tokens h
  rw [← hmap, List.length_map]

theorem peek_of_view (h : c.view = ⟨t :: ts, S⟩) : c.peek.token = t := by
  obtain ⟨loc, rest, hrest, -⟩ := exists_rest_of_view h
  simp [peek, hrest]

theorem ahead?_of_view (h : c.view = ⟨ts, S⟩) (n : Nat) : c.ahead? n = ts[n]? := by
  have hmap : c.rest.map (·.token) = ts := congrArg View.tokens h
  rw [← hmap, List.getElem?_map]
  rfl

theorem next_of_view (h : c.view = ⟨t :: ts, S⟩) (ht : t ≠ .endOfText) : c.next.view = ⟨ts, S⟩ := by
  obtain ⟨loc, rest, hrest, hts⟩ := exists_rest_of_view h
  unfold next
  split
  · simp_all
  · simp_all
  · rename_i l rest' _ hcons
    rw [hrest] at hcons
    obtain ⟨rfl, rfl⟩ := List.cons.inj hcons
    simp [view, hts, structs_of_view h]

end Cursor

namespace Parse

variable {α β : Type} {v w x : View} {Q : α → Prop} {R : β → Prop} {f : Bool → Parse β} {sign : Punct}

/-- The reader succeeds from the view `v`, leaves the view `w` and gives what satisfies `Q`. -/
def Reads (p : Parse α) (v w : View) (Q : α → Prop) : Prop :=
  ∀ c : Cursor, c.view = v → ∃ a c', p c = .ok (a, c') ∧ c'.view = w ∧ Q a

namespace Reads

variable {p : Parse α}

theorem pure {a : α} (h : Q a) : Reads (Pure.pure a) v v Q := fun c hc => ⟨a, c, rfl, hc, h⟩

theorem bind {f : α → Parse β} (hp : Reads p v w Q) (hf : ∀ a, Q a → Reads (f a) w x R) :
    Reads (p >>= f) v x R := by
  intro c hc
  obtain ⟨a, c₁, hpc, hc₁, ha⟩ := hp c hc
  obtain ⟨b, c₂, hfa, hc₂, hb⟩ := hf a ha c₁ hc₁
  refine ⟨b, c₂, ?_, hc₂, hb⟩
  show (p c >>= fun r => f r.1 r.2) = .ok (b, c₂)
  rw [hpc]
  exact hfa

theorem map {f : α → β} (hp : Reads p v w Q) (hf : ∀ a, Q a → R (f a)) : Reads (f <$> p) v w R := by
  rw [← bind_pure_comp]
  exact hp.bind fun a ha => .pure (hf a ha)

theorem mono {P : α → Prop} (hp : Reads p v w P) (h : ∀ a, P a → Q a) : Reads p v w Q := by
  intro c hc
  obtain ⟨a, c', hpc, hc', ha⟩ := hp c hc
  exact ⟨a, c', hpc, hc', h a ha⟩

end Reads

variable {t : Token} {ts : List Token} {S : List String}

/-! ### Looking ahead -/

theorem reads_get_bind {f : Cursor → Parse β} (h : ∀ c : Cursor, c.view = v → Reads (f c) v x R) :
    Reads (get >>= f) v x R := fun c hc => h c hc c hc

theorem reads_here_bind {f : Location → Parse β} (h : ∀ loc, Reads (f loc) v x R) :
    Reads (here >>= f) v x R := fun c hc => h c.peek.loc c hc

theorem reads_token_bind {f : Token → Parse β} (h : Reads (f t) ⟨t :: ts, S⟩ x R) :
    Reads (token >>= f) ⟨t :: ts, S⟩ x R := by
  intro c hc
  have h := h c hc
  rw [← Cursor.peek_of_view hc] at h
  exact h

theorem reads_check_bind (h : Reads (f (t == .punct sign)) ⟨t :: ts, S⟩ x R) :
    Reads (check sign >>= f) ⟨t :: ts, S⟩ x R := by
  intro c hc
  have h := h c hc
  rw [← Cursor.peek_of_view hc] at h
  exact h

theorem reads_isStruct_bind {name : String}
    (h : Reads (f (S.contains name)) ⟨ts, S⟩ x R) : Reads (isStruct name >>= f) ⟨ts, S⟩ x R := by
  intro c hc
  have h := h c hc
  rw [← Cursor.structs_of_view hc] at h
  exact h

theorem reads_atVoidList_bind
    (ht : ∀ ty, t = .typeName ty → ty.isVoid = true → ts.head? ≠ some (.punct .rightParen))
    (h : Reads (f false) ⟨t :: ts, S⟩ x R) : Reads (atVoidList >>= f) ⟨t :: ts, S⟩ x R := by
  unfold atVoidList
  rw [bind_assoc]
  refine reads_get_bind fun c hc => ?_
  rw [Cursor.peek_of_view hc, Cursor.ahead?_of_view hc]
  cases t with
  | typeName ty =>
    have hfalse : (ty.isVoid && ((Token.typeName ty :: ts)[1]? == some (.punct .rightParen))) = false := by
      rw [Bool.and_eq_false_imp]
      intro hty
      have hne := ht ty rfl hty
      rw [List.head?_eq_getElem?] at hne
      simpa using hne
    simp only [hfalse]
    exact h
  | _ => exact h

/-! ### Passing tokens -/

theorem reads_advance (ht : t ≠ .endOfText) :
    Reads advance ⟨t :: ts, S⟩ ⟨ts, S⟩ fun l => l.token = t :=
  fun c hc => ⟨c.peek, c.next, rfl, Cursor.next_of_view hc ht, Cursor.peek_of_view hc⟩

theorem reads_acceptToken (ht : t ≠ .endOfText) :
    Reads (acceptToken t) ⟨t :: ts, S⟩ ⟨ts, S⟩ fun b => b = true := by
  intro c hc
  refine ⟨true, c.next, ?_, Cursor.next_of_view hc ht, rfl⟩
  unfold acceptToken
  rw [Cursor.peek_of_view hc, if_pos (by simp)]

theorem reads_acceptToken_of_ne {other : Token} (ht : t ≠ other) :
    Reads (acceptToken other) ⟨t :: ts, S⟩ ⟨t :: ts, S⟩ fun b => b = false := by
  intro c hc
  refine ⟨false, c, ?_, hc, rfl⟩
  unfold acceptToken
  rw [Cursor.peek_of_view hc, if_neg (by simpa using ht)]

theorem reads_accept (sign : Punct) :
    Reads (accept sign) ⟨.punct sign :: ts, S⟩ ⟨ts, S⟩ fun b => b = true :=
  reads_acceptToken Token.noConfusion

theorem reads_accept_of_ne (ht : t ≠ .punct sign) :
    Reads (accept sign) ⟨t :: ts, S⟩ ⟨t :: ts, S⟩ fun b => b = false :=
  reads_acceptToken_of_ne ht

theorem reads_expectToken (ht : t ≠ .endOfText) (what : Expected) :
    Reads (expectToken t what) ⟨t :: ts, S⟩ ⟨ts, S⟩ fun _ => True := by
  intro c hc
  refine ⟨c.peek.loc, c.next, ?_, Cursor.next_of_view hc ht, trivial⟩
  unfold expectToken
  rw [Cursor.peek_of_view hc, if_pos (by simp)]

theorem reads_expect (sign : Punct) (what : Expected) :
    Reads (expect sign what) ⟨.punct sign :: ts, S⟩ ⟨ts, S⟩ fun _ => True :=
  reads_expectToken Token.noConfusion what

theorem reads_name (name : String) (what : Expected) :
    Reads (Parse.name what) ⟨.identifier name :: ts, S⟩ ⟨ts, S⟩ fun word => word = name := by
  intro c hc
  refine ⟨name, c.next, ?_, Cursor.next_of_view hc Token.noConfusion, rfl⟩
  unfold Parse.name
  rw [Cursor.peek_of_view hc]

end Parse

end GlslEs
