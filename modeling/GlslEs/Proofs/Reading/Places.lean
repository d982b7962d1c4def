import GlslEs.Proofs.Reading.Lexer
import Mathlib.Data.List.Induction

/-!
# Where tokens stand

The place of a token is the one reached by reading everything in front of it.  Its offset, line and
column are therefore the number of bytes in front of it, one more than the number of newlines there, and
one more than the number of characters behind the last of those.

* `Location.advance_start`: what is counted over the characters in front of a place.
* `Lexer.placed_lexemes`: tokens stand at the places reached, each behind the ones before it.
* `Lexer.tokenize_places`: **the places of all tokens of a text.**
-/

namespace GlslEs

namespace Location

theorem offset_advance (loc : Location) (cs : List Char) :
    (loc.advance cs).offset = loc.offset + (String.ofList cs).utf8ByteSize := by
  induction cs generalizing loc with
  | nil => simp
  | cons c cs ih =>
    have hnext : (loc.next c).offset = loc.offset + c.utf8Size := by
      unfold next
      split <;> rfl
    rw [advance_cons, ih, hnext, String.ofList_cons, String.utf8ByteSize_append,
      String.utf8ByteSize_singleton, Nat.add_assoc]

theorem offset_lt_advance (loc : Location) {cs : List Char} (h : cs ≠ []) :
    loc.offset < (loc.advance cs).offset := by
  obtain ⟨c, cs, rfl⟩ := List.exists_cons_of_ne_nil h
  have hc := c.utf8Size_pos
  rw [offset_advance, String.ofList_cons, String.utf8ByteSize_append, String.utf8ByteSize_singleton]
  omega

/-- Lines and columns count newlines and the characters behind the last one. -/
theorem advance_start (cs : List Char) : (start.advance cs).line = 1 + cs.count '\n' ∧
    (start.advance cs).column = 1 + (cs.reverse.takeWhile (· != '\n')).length := by
  induction cs using List.reverseRecOn with
  | nil => exact ⟨rfl, rfl⟩
  | append_singleton cs c ih =>
    rw [advance_append, advance_cons, advance_nil, next, List.reverse_append, List.count_append]
    split
    · rename_i hc
      simp [hc, ih.1, Nat.add_assoc]
    · rename_i hc
      simp [hc, ih.1, ih.2, Nat.add_assoc]

end Location

namespace Lexer

open Location

/-- Tokens of a text behind some characters: each stands at a place reached and behind the ones before
it, and only the last one, at the end of the text, closes it. -/
structure Placed (front cs : List Char) (ls : List Lexeme) : Prop where
  reached : ∀ l ∈ ls, ∃ as bs, cs = as ++ bs ∧ l.loc = start.advance (front ++ as)
  increasing : ls.Pairwise fun a b => a.loc.offset < b.loc.offset
  closed : ∃ init, ls = init ++ [⟨.endOfText, start.advance (front ++ cs)⟩] ∧
    ∀ l ∈ init, l.token ≠ .endOfText

variable {front cs : List Char} {ls : List Lexeme}

theorem Placed.nil (front : List Char) : Placed front [] [⟨.endOfText, start.advance front⟩] where
  reached l hl := ⟨[], [], rfl, by rw [List.mem_singleton.mp hl, List.append_nil]⟩
  increasing := List.pairwise_singleton _ _
  closed := ⟨[], by simp, by simp⟩

/-- One more piece in front, of which at most one token is left. -/
theorem Placed.cons {text : List Char} (htext : text ≠ []) {found : List Lexeme} (hone : found.length ≤ 1)
    (hfound : ∀ l ∈ found, l.loc = start.advance front ∧ l.token ≠ .endOfText)
    (h : Placed (front ++ text) cs ls) : Placed front (text ++ cs) (found ++ ls) where
  reached l hl := by
    rcases List.mem_append.mp hl with hl | hl
    · exact ⟨[], _, rfl, by rw [(hfound l hl).1, List.append_nil]⟩
    · obtain ⟨as, bs, hcs, hloc⟩ := h.reached l hl
      exact ⟨text ++ as, bs, by rw [hcs, List.append_assoc], by rw [hloc, List.append_assoc]⟩
  increasing := by
    refine List.pairwise_append.mpr ⟨?_, h.increasing, fun a ha b hb => ?_⟩
    · match found, hone with
      | [], _ => exact .nil
      | [a], _ => exact List.pairwise_singleton _ _
    · obtain ⟨as, -, -, hb⟩ := h.reached b hb
      rw [(hfound a ha).1, hb, List.append_assoc, advance_append]
      exact offset_lt_advance _ (List.append_ne_nil_of_left_ne_nil htext as)
  closed := by
    obtain ⟨init, hinit, hne⟩ := h.closed
    refine ⟨found ++ init, by rw [hinit, List.append_assoc, List.append_assoc], fun l hl => ?_⟩
    rcases List.mem_append.mp hl with hl | hl
    · exact (hfound l hl).2
    · exact hne l hl

theorem length_lexemes_le (piece : Piece) (loc : Location) : (piece.lexemes loc).length ≤ 1 := by
  cases piece with
  | blank => simp [Piece.lexemes]
  | directive token => cases token <;> simp [Piece.lexemes]
  | token t => simp [Piece.lexemes]

/-- Tokens stand at the places reached, each behind the ones before it. -/
theorem placed_lexemes {fuel : Nat} {loc : Location} {fresh : Bool} (hfuel : cs.length ≤ fuel)
    (hloc : loc = start.advance front) (h : lexemes fuel loc fresh cs = .ok ls) : Placed front cs ls := by
  fun_induction lexemes fuel loc fresh cs generalizing front ls with
  | case1 =>
    cases h
    exact hloc ▸ .nil front
  | case2 loc fresh cs hcs => exact absurd (List.length_eq_zero_iff.mp (Nat.le_zero.mp hfuel)) hcs
  | case3 => cases h
  | case4 fuel loc fresh c cs piece length hpiece text =>
    rename_i ih
    obtain ⟨hpos, hfound⟩ := takes_of_nextPiece hpiece loc
    obtain ⟨rest, hrest, rfl⟩ := Except.map_eq_ok_iff.mp h
    have hplaced : Placed (front ++ text) ((c :: cs).drop length) rest :=
      ih (by rw [List.length_drop]; omega) (by rw [hloc, advance_append]) hrest
    have htext : text ≠ [] := by simpa [text, List.take_eq_nil_iff] using Nat.ne_of_gt hpos
    rw [← List.take_append_drop length (c :: cs)]
    exact hplaced.cons htext (length_lexemes_le piece loc) fun l hl =>
      ⟨hloc ▸ (hfound l hl).1, (hfound l hl).2.2⟩

/-- **The places of tokens are exact.**  In the tokens of a text offsets increase strictly, the last token
and no other closes the text and its offset is the length of the text in bytes; the offset of every token
is the number of bytes in front of it, its line one more than the number of newlines in front of it, and
its column one more than the number of characters behind the last of those. -/
theorem tokenize_places {source : String} {ls : List Lexeme} (h : tokenize source = .ok ls) :
    ls.Pairwise (fun a b => a.loc.offset < b.loc.offset) ∧
      (∃ init last, ls = init ++ [last] ∧ last.token = .endOfText ∧
        last.loc.offset = source.utf8ByteSize ∧ ∀ l ∈ init, l.token ≠ .endOfText) ∧
      ∀ l ∈ ls, ∃ front back : String, source = front ++ back ∧ l.loc.offset = front.utf8ByteSize ∧
        l.loc.line = 1 + front.toList.count '\n' ∧
        l.loc.column = 1 + (front.toList.reverse.takeWhile (· != '\n')).length := by
  have hplaced : Placed [] source.toList ls := placed_lexemes (Nat.le_refl _) rfl h
  refine ⟨hplaced.increasing, ?_, fun l hl => ?_⟩
  · obtain ⟨init, hinit, hne⟩ := hplaced.closed
    refine ⟨init, _, hinit, rfl, ?_, hne⟩
    rw [offset_advance, List.nil_append, String.ofList_toList]
    exact Nat.zero_add _
  · obtain ⟨as, bs, hsource, hloc⟩ := hplaced.reached l hl
    refine ⟨String.ofList as, String.ofList bs, ?_, ?_, ?_⟩
    · rw [← String.ofList_append, ← hsource, String.ofList_toList]
    · rw [hloc, offset_advance]
      exact Nat.zero_add _
    · rw [hloc, String.toList_ofList]
      exact advance_start as

/-- A comment with a newline and a character of more than one byte stands in front of a name. -/
theorem tokenize_places_comment : ∃ ls, tokenize "/*é\n*/ x" = .ok ls ∧
    ls = [⟨.identifier "x", ⟨2, 4, 8⟩⟩, ⟨.endOfText, ⟨2, 5, 9⟩⟩] ∧
      ∃ front back : String, "/*é\n*/ x" = front ++ back ∧ 8 = front.utf8ByteSize ∧
        2 = 1 + front.toList.count '\n' ∧
        4 = 1 + (front.toList.reverse.takeWhile (· != '\n')).length := by
  have h : (tokenize "/*é\n*/ x").toOption =
      some [⟨.identifier "x", ⟨2, 4, 8⟩⟩, ⟨.endOfText, ⟨2, 5, 9⟩⟩] := by decide +kernel
  cases htokens : tokenize "/*é\n*/ x" with
  | error problem =>
    rw [htokens] at h
    cases h
  | ok ls =>
    rw [htokens] at h
    obtain rfl := Option.some.inj h
    exact ⟨_, rfl, rfl, (tokenize_places htokens).2.2 _ List.mem_cons_self⟩

end Lexer

end GlslEs
