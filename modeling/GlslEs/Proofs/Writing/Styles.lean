import GlslEs.Proofs.Writing.Kept

/-!
# Both styles are read alike

The text of a shader is its directives, each on a line, and its declarations.  A directive takes its whole
line and nothing else, so what follows is read as if it stood alone; and declarations made of words are
read piece by piece, whatever blanks stand between the pieces.

* `Lexer.lexes_lines`: directives in front of a text.
* `Shader.Worded.tokensOf?_text`: **what the text of a shader is read as** does not depend on the style.
* `Shader.tokenize_text_alike`: whatever passes a shader has gone through, its two texts are both refused or
  have the same tokens.
-/

namespace GlslEs

/-! ### Directives -/

namespace Lexer

variable {r : Option (List Token)}

/-- What a line behind its hash sign is read as. -/
def lineReading (line : List Char) : Option (List Token) := (readDirective line).toOption.map Option.toList

/-- A line break between two lines. -/
theorem Lexes.newline {cs : List Char} (h : Lexes true cs r) : Lexes true ('\n' :: cs) r := by
  have hpiece : nextPiece true '\n' cs = .ok (.blank, 1) := rfl
  have hlexes := Lexes.step hpiece Nat.one_pos h
  rwa [show Piece.blank.tokens = [] from rfl, show r.map ([] ++ ·) = r by cases r <;> rfl] at hlexes

theorem nextPiece_hash (cs : List Char) : nextPiece true '#' cs =
    (readDirective (cs.takeWhile (· != '\n'))).map fun token =>
      (.directive token, (cs.takeWhile (· != '\n')).length + 1) := rfl

/-- A directive takes its line, and nothing stands in front of the next one. -/
theorem Lexes.directive {line rest : List Char} (hline : '\n' ∉ line) (hrest : Lexes true rest r) :
    Lexes true ('#' :: (line ++ '\n' :: rest)) ((lineReading line).bind fun ts => r.map (ts ++ ·)) := by
  have htake : (line ++ '\n' :: rest).takeWhile (· != '\n') = line := by
    refine takeWhile_append_stop (fun c hc => bne_iff_ne.mpr fun h => hline (h ▸ hc)) fun d hd => ?_
    rw [← Option.mem_some_iff.mp hd, bne_self_eq_false]
  have hpiece : nextPiece true '#' (line ++ '\n' :: rest) =
      (readDirective line).map fun token => (.directive token, line.length + 1) := by
    rw [nextPiece_hash, htake]
  unfold lineReading
  cases hread : readDirective line with
  | error problem =>
    rw [hread] at hpiece
    exact .error hpiece
  | ok token =>
    rw [hread] at hpiece
    have hbehind : Lexes (freshAfter true (.directive token) (('#' :: (line ++ '\n' :: rest)).take (line.length + 1)))
        (('#' :: (line ++ '\n' :: rest)).drop (line.length + 1)) r := by
      rw [List.drop_succ_cons, List.drop_left]
      exact hrest.newline
    have hlexes := Lexes.step hpiece (Nat.succ_pos _) hbehind
    cases token <;> exact hlexes

/-- What directives in front of a text are read as. -/
def linesReading (lines : List (List Char)) (r : Option (List Token)) : Option (List Token) :=
  lines.foldr (fun line r => (lineReading line).bind fun ts => r.map (ts ++ ·)) r

/-- The text of directives, each on a line. -/
def linesText (lines : List (List Char)) : List Char := lines.flatMap fun line => '#' :: (line ++ ['\n'])

/-- Directives in front of a text. -/
theorem lexes_lines {lines : List (List Char)} {rest : List Char}
    (hlines : ∀ line ∈ lines, '\n' ∉ line) (hrest : Lexes true rest r) :
    Lexes true (linesText lines ++ rest) (linesReading lines r) := by
  induction lines with
  | nil => exact hrest
  | cons line lines ih =>
    rw [List.forall_mem_cons] at hlines
    have hlexes := Lexes.directive hlines.1 (ih hlines.2)
    have htext : linesText (line :: lines) ++ rest = '#' :: (line ++ '\n' :: (linesText lines ++ rest)) := by
      simp [linesText]
    rw [htext]
    exact hlexes

end Lexer

/-! ### Shaders -/

/-- Tight pieces are written as they stand, in both styles. -/
theorem Piece.renderFrom_tight (style : Style) (indent : Nat) (last : Option Char) (texts : List String)
    (ps : List Piece) :
    renderFrom style indent last (texts.map Piece.tight ++ ps) = texts.flatMap String.toList ++
      renderFrom style indent ((texts.flatMap String.toList).getLast?.or last) ps := by
  induction texts generalizing last with
  | nil => rfl
  | cons text texts ih =>
    rw [List.map_cons, List.cons_append, renderFrom_cons, List.flatMap_cons, List.append_assoc]
    refine congrArg (text.toList ++ ·) ?_
    rw [List.getLast?_append, Option.or_assoc]
    exact ih _

namespace Shader

variable {s : Shader}

/-- The directives of a shader without their hash signs. -/
def directiveLines (s : Shader) : List (List Char) :=
  (if s.explicitVersion then [s.version.directive.toList.tail] else []) ++
    s.extensions.map fun e => ("extension " ++ e.name ++ " : " ++ e.behavior.word).toList

/-- The pieces of the declarations of a shader. -/
def declarationPieces (s : Shader) : List Piece := s.declarations.flatMap fun d => .line :: d.pieces

/-- The directives are written line by line, in both styles. -/
theorem exists_renderFrom_pieces (s : Shader) : ∃ last, ∀ style,
    Piece.renderFrom style 0 none s.pieces =
      Lexer.linesText s.directiveLines ++ Piece.renderFrom style 0 last s.declarationPieces := by
  have hversion (v : Version) : v.directive.toList = '#' :: v.directive.toList.tail := by cases v <;> rfl
  have hextension (e : ExtensionUse) : e.directive.toList =
      '#' :: (("extension " ++ e.name ++ " : " ++ e.behavior.word).toList ++ ['\n']) := by
    simp [ExtensionUse.directive]
  have hpieces : s.pieces = ((if s.explicitVersion then [s.version.directive, "\n"] else []) ++
      s.extensions.map ExtensionUse.directive).map Piece.tight ++ s.declarationPieces := by
    unfold pieces declarationPieces
    split <;> simp
  rw [hpieces]
  refine ⟨_, fun style => (Piece.renderFrom_tight ..).trans (congrArg (· ++ _) ?_)⟩
  unfold directiveLines Lexer.linesText
  rw [List.flatMap_append, List.flatMap_append, List.flatMap_map, List.flatMap_map]
  refine congrArg₂ (· ++ ·) ?_ (List.flatMap_congr fun e _ => hextension e)
  split
  · simpa using congrArg (· ++ ['\n']) (hversion s.version)
  · rfl

theorem Worded.newline_notMem_directiveLines (h : s.Worded) : ∀ line ∈ s.directiveLines, '\n' ∉ line := by
  have hversion (v : Version) : '\n' ∉ v.directive.toList.tail := by cases v <;> decide
  have hbehavior (b : Behavior) : '\n' ∉ b.word.toList := by cases b <;> decide
  intro line hline
  rcases List.mem_append.mp hline with hline | hline
  · split at hline
    · rw [List.mem_singleton.mp hline]
      exact hversion s.version
    · cases hline
  · obtain ⟨e, he, rfl⟩ := List.mem_map.mp hline
    have hname := h.extensions e he
    simp [hname, hbehavior e.behavior]

theorem Worded.legible (h : s.Worded) : Piece.Legible false s.declarationPieces := by
  have hrow (d : TopLevel) (hd : d ∈ s.declarations) :
      Piece.Row false Piece.Begins Piece.Ends (.line :: d.pieces) :=
    ((h.declarations d hd).mono fun _ he => he.laid).row.cons_gap rfl
  rcases Piece.row_flatMap hrow with hnil | hrow
  · unfold declarationPieces
    rw [hnil]
    exact Piece.legible_nil
  · exact hrow.legible

/-- **What the text of a shader is read as** does not depend on the style: directives line by line, then
declarations piece by piece. -/
theorem Worded.tokensOf?_text (h : s.Worded) (style : Style) :
    Lexer.tokensOf? (s.text style) =
      (Lexer.linesReading s.directiveLines (Piece.readingOf s.declarationPieces)).map (· ++ [.endOfText]) := by
  obtain ⟨last, hrender⟩ := s.exists_renderFrom_pieces
  refine Lexer.tokensOf?_of_lexes ?_
  rw [text, Piece.render, String.toList_ofList, hrender style]
  exact Lexer.lexes_lines h.newline_notMem_directiveLines ((h.legible.rendered style 0 last).1 true)

/-- A shader that has been read and has gone through any passes in any order. -/
inductive Derived : Shader → Prop
  | parsed {source : String} {limits : Limits} {s : Shader} {ds : List Diagnostic}
    (h : parse source limits = .ok (s, ds)) : Derived s
  | optimized {s : Shader} (o : Optimizer) (h : Derived s) : Derived (o.shader s).1
  | minified {s : Shader} (h : Derived s) : Derived s.minify.value
  | mangled {s : Shader} (h : Derived s) : Derived s.mangle.1

theorem Derived.worded (h : s.Derived) : s.Worded := by
  induction h with
  | parsed h => exact worded_of_parse h
  | optimized o _ ih => exact ih.optimized o
  | minified _ ih => exact ih.minified
  | mangled _ ih => exact ih.mangled

/-- **Both texts of a shader are the same program**: they are both refused, or they have the same tokens. -/
theorem tokenize_text_alike (h : s.Derived) :
    (∃ problem problem', Lexer.tokenize (s.text .beautified) = .error problem ∧
      Lexer.tokenize (s.text .compact) = .error problem') ∨
    ∃ ls ls', Lexer.tokenize (s.text .beautified) = .ok ls ∧ Lexer.tokenize (s.text .compact) = .ok ls' ∧
      ls.map (·.token) = ls'.map (·.token) := by
  have hsame := (h.worded.tokensOf?_text .beautified).trans (h.worded.tokensOf?_text .compact).symm
  unfold Lexer.tokensOf? at hsame
  cases hbeautified : Lexer.tokenize (s.text .beautified) with
  | error problem =>
    cases hcompact : Lexer.tokenize (s.text .compact) with
    | error problem' => exact .inl ⟨problem, problem', rfl, rfl⟩
    | ok ls' =>
      rw [hbeautified, hcompact] at hsame
      cases hsame
  | ok ls =>
    cases hcompact : Lexer.tokenize (s.text .compact) with
    | error problem =>
      rw [hbeautified, hcompact] at hsame
      cases hsame
    | ok ls' =>
      rw [hbeautified, hcompact] at hsame
      exact .inr ⟨ls, ls', rfl, rfl, Option.some.inj hsame⟩

/-- Two signs that would be one without a blank, behind an extension and after all passes. -/
theorem tokenize_text_alike_signs : ∃ s t : Shader,
    parse "#extension GL_EXT_x : warn\nvoid main()\x7bint i=1;if(i>0)\x7bi=i- -i+0;\x7d\x7d" .standard = .ok (s, []) ∧
    t = ((Optimizer.ofOptions {}).shader s).1.minify.value.mangle.1 ∧
    ((∃ problem problem', Lexer.tokenize (t.text .beautified) = .error problem ∧
      Lexer.tokenize (t.text .compact) = .error problem') ∨
    ∃ ls ls', Lexer.tokenize (t.text .beautified) = .ok ls ∧ Lexer.tokenize (t.text .compact) = .ok ls' ∧
      ls.map (·.token) = ls'.map (·.token)) := by
  obtain ⟨s, hparse, -⟩ := exists_parse
    "#extension GL_EXT_x : warn\nvoid main()\x7bint i=1;if(i>0)\x7bi=i- -i+0;\x7d\x7d" .standard
    (P := fun _ => true) (by decide +kernel)
  have hderived : Derived ((Optimizer.ofOptions {}).shader s).1.minify.value.mangle.1 :=
    .mangled (.minified (.optimized _ (.parsed hparse)))
  exact ⟨s, _, hparse, rfl, tokenize_text_alike hderived⟩

end Shader

end GlslEs
