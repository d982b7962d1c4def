import GlslEs.Proofs.Reading.Declaration
import GlslEs.Shader.Parser

/-!
# Reading shaders yields words

Statements and whole shaders: what is read is made of words, and a statement is read with the structures
of everything in front of it known.

* `stmtReaders`: the readers of statements.
* `Shader.spelt_of_ofTokens`: what is known of the declarations and extensions of a list of tokens.
-/

namespace GlslEs

namespace Parse

variable {S : List String} {q : TypeQualifiers} {spec : TypeSpec}

/-! ### Statements -/

theorem learns_localDeclaration :
    Learns S localDeclaration (Declaration.Worded true Expr.Spelt) Declaration.defined := by
  refine keeps_here.bind fun loc _ => keeps_qualifiers.bind fun q hq => learns_typeSpec.bind fun spec hspec =>
    keeps_check.bind fun _ _ => ?_
  dsimp only
  split
  · exact yields_fail_bind _
  · intro c hc d c' h
    obtain ⟨_, hc', ⟨hd, hstruct⟩, rfl⟩ := keeps_declaration loc hq hspec c hc d c' h
    exact ⟨_, hc', hd, by rw [TypeSpec.defined, ← hstruct]; rfl⟩

theorem keeps_parenthesized (opening closing : Expected) :
    Keeps S (parenthesized opening closing) Expr.Spelt :=
  keeps_expect.bind fun _ _ => keeps_get.bind fun _ _ => (exprReaders _).expression.bind fun _ he =>
    keeps_expect.bind fun _ _ => .pure ⟨he, rfl⟩

theorem keeps_exprUnless (sign : Punct) : Keeps S (exprUnless sign) fun e => ∀ x ∈ e, x.Spelt := by
  refine keeps_check.bind fun _ _ => ?_
  split
  · exact .pure ⟨by simp, rfl⟩
  · exact keeps_get.bind fun _ _ => (exprReaders _).expression.map (by simp)

theorem learns_jump (loc : Location) (kind : Jump) :
    Learns S (jump loc kind) (Stmt.Worded true Expr.Spelt) Stmt.defined :=
  keeps_advance.bind fun _ _ => keeps_expect.bind fun _ _ => .pure ⟨.jump, rfl⟩

theorem learns_loopStart : Learns S loopStart
    (LoopStart.Holds Expr.Spelt (Declaration.Worded true Expr.Spelt)) LoopStart.defined := by
  refine keeps_here.bind fun _ _ => keeps_accept.bind fun _ _ => ?_
  split
  · exact .pure ⟨.absent, rfl⟩
  · refine keeps_get.bind fun _ _ => ?_
    split
    · exact learns_localDeclaration.bind fun d hd => .pure ⟨.decl hd, rfl⟩
    · exact keeps_get.bind fun _ _ => (exprReaders _).expression.bind fun e he =>
        keeps_expect.bind fun _ _ => .pure ⟨.expr he, rfl⟩

/-- All readers of statements with the same fuel give statements made of words and know the structures
that these define. -/
structure StmtReaders (fuel : Nat) : Prop where
  statement (S : List String) : Learns S (statement fuel) (Stmt.Worded true Expr.Spelt) Stmt.defined
  block (S : List String) : Learns S (block fuel) (fun b => ∀ s ∈ b.2, s.Worded true Expr.Spelt)
    fun b => Stmt.definedAll b.2
  statements (S : List String) : Learns S (statements fuel) (fun ss => ∀ s ∈ ss, s.Worded true Expr.Spelt)
    Stmt.definedAll

namespace StmtReaders

variable {fuel : Nat} (r : StmtReaders fuel) (S : List String)

include r

theorem block_succ : Learns S (Parse.block (fuel + 1)) (fun b => ∀ s ∈ b.2, s.Worded true Expr.Spelt)
    fun b => Stmt.definedAll b.2 := by
  rw [Parse.block]
  exact keeps_expect.bind fun _ _ => (r.statements S).bind fun ss hss => .pure ⟨hss, rfl⟩

theorem statements_succ : Learns S (Parse.statements (fuel + 1))
    (fun ss => ∀ s ∈ ss, s.Worded true Expr.Spelt) Stmt.definedAll := by
  rw [Parse.statements]
  refine keeps_accept.bind fun _ _ => ?_
  split
  · exact .pure ⟨by simp, rfl⟩
  · refine keeps_token.bind fun _ _ => ?_
    split
    · exact yields_fail_bind _
    · exact (r.statement S).bind fun s hs => (r.statements _).bind fun ss hss =>
        .pure ⟨List.forall_mem_cons.mpr ⟨hs, hss⟩, by simp [Stmt.definedAll]⟩

theorem statement_succ :
    Learns S (Parse.statement (fuel + 1)) (Stmt.Worded true Expr.Spelt) Stmt.defined := by
  rw [Parse.statement]
  refine keeps_here.bind fun _ _ => keeps_token.bind fun _ _ => ?_
  split
  · exact (r.block S).bind fun b hbody => .pure ⟨.block hbody, by simp [Stmt.defined]⟩
  · exact keeps_advance.bind fun _ _ => .pure ⟨.empty, by simp [Stmt.defined]⟩
  · refine keeps_advance.bind fun _ _ => (keeps_parenthesized _ _).bind fun condition hcondition =>
      (r.statement S).bind fun thenBranch hthen => keeps_acceptWord.bind fun _ _ => ?_
    split
    · exact (r.statement _).bind fun elseBranch helse =>
        .pure ⟨.ifElse hcondition hthen helse, by simp [Stmt.defined]⟩
    · exact .pure ⟨.ifThen hcondition hthen, by simp [Stmt.defined]⟩
  · exact keeps_advance.bind fun _ _ => keeps_expect.bind fun _ _ => learns_loopStart.bind fun start hstart =>
      (keeps_exprUnless _).bind fun condition hcondition => keeps_expect.bind fun _ _ =>
        (keeps_exprUnless _).bind fun step hstep => keeps_expect.bind fun _ _ =>
          (r.statement _).bind fun body hbody =>
            .pure ⟨.forLoop hstart hcondition hstep hbody, by simp [Stmt.defined]⟩
  · exact keeps_advance.bind fun _ _ => (keeps_parenthesized _ _).bind fun condition hcondition =>
      (r.statement S).bind fun body hbody => .pure ⟨.whileLoop hcondition hbody, by simp [Stmt.defined]⟩
  · exact keeps_advance.bind fun _ _ => (r.statement S).bind fun body hbody =>
      keeps_expectWord.bind fun _ _ => (keeps_parenthesized _ _).bind fun condition hcondition =>
        keeps_expect.bind fun _ _ => .pure ⟨.doWhile hbody hcondition, by simp [Stmt.defined]⟩
  · exact keeps_advance.bind fun _ _ => (keeps_parenthesized _ _).bind fun selector hselector =>
      (r.block S).bind fun b hbody => .pure ⟨.switch hselector hbody, by simp [Stmt.defined]⟩
  · exact keeps_advance.bind fun _ _ => keeps_get.bind fun _ _ => (exprReaders _).expression.bind fun value hvalue =>
      keeps_expect.bind fun _ _ => .pure ⟨.label (by simpa using hvalue), by simp [Stmt.defined]⟩
  · exact keeps_advance.bind fun _ _ => keeps_expect.bind fun _ _ =>
      .pure ⟨.label (by simp), by simp [Stmt.defined]⟩
  · exact keeps_advance.bind fun _ _ => (keeps_exprUnless _).bind fun value hvalue =>
      keeps_expect.bind fun _ _ => .pure ⟨.result hvalue, by simp [Stmt.defined]⟩
  · exact learns_jump _ _
  · exact learns_jump _ _
  · exact learns_jump _ _
  · exact yields_fail _
  · refine keeps_get.bind fun _ _ => ?_
    split
    · exact learns_localDeclaration.bind fun d hd => .pure ⟨.decl hd, by simp [Stmt.defined]⟩
    · exact keeps_get.bind fun _ _ => (exprReaders _).expression.bind fun e he =>
        keeps_expect.bind fun _ _ => .pure ⟨.expr he, by simp [Stmt.defined]⟩

end StmtReaders

theorem stmtReaders (fuel : Nat) : StmtReaders fuel := by
  induction fuel with
  | zero => exact ⟨fun _ => yields_fail _, fun _ => yields_fail _, fun _ => yields_fail _⟩
  | succ fuel r => exact ⟨r.statement_succ, r.block_succ, r.statements_succ⟩

/-! ### Shaders -/

/-- A declaration is made of words and known, and at most one structure more is learnt than it defines:
one that is defined in front of a function's name. -/
def YieldsTopLevel (S : List String) (d : TopLevel) (S' : List String) : Prop :=
  d.Worded true Expr.Spelt ∧ d.Known S ∧ ∃ E : Option String,
    (∀ name ∈ E, ∃ p ∈ d.head?, p.result = .struct name) ∧ S' = d.defined ++ (E.toList ++ S)

theorem YieldsTopLevel.keeps {d : TopLevel} (hworded : d.Worded true Expr.Spelt) (hknown : d.Known S) :
    YieldsTopLevel S d (d.defined ++ S) := ⟨hworded, hknown, none, by simp, rfl⟩

/-- A default precision behind the precision. -/
theorem yields_precisionType (loc : Location) (p : Precision) :
    Yields S (do
      let ty ← match (← advance).token with
        | .typeName ty => pure ty
        | other => failPassed (.needed .type other)
      let _ ← expect .semicolon .afterPrecision
      return TopLevel.precision p ty loc) (YieldsTopLevel S) := by
  refine keeps_advance.bind fun l htoken => ?_
  obtain ⟨token, _⟩ := l
  dsimp only
  split
  · obtain ⟨word, hword⟩ := htoken
    exact keeps_expect.bind fun _ _ => .pure (.keeps (Ty.word_of_ofKeyword? hword).1 trivial)
  · exact yields_failPassed_bind _

theorem yields_defaultPrecision (loc : Location) : Yields S (defaultPrecision loc) (YieldsTopLevel S) := by
  refine keeps_advance.bind fun l _ => ?_
  dsimp only
  split
  · exact yields_precisionType loc _
  · exact yields_failPassed_bind _

/-- A function behind its type, which may have defined a structure. -/
theorem yields_function (loc : Location) (hspec : spec.Spelt S) :
    Yields (spec.defined ++ S) (do
      let p ← prototype q spec loc
      if ← accept .semicolon then
        return .prototype p
      let (bodyLoc, body) ← block (← get).fuel
      return .function ⟨p, bodyLoc, body⟩) (YieldsTopLevel S) := by
  refine (keeps_prototype q loc hspec.ty).bind fun p hp => keeps_accept.bind fun _ _ => ?_
  have hstruct : ∀ name ∈ spec.struct.map StructDef.name, p.result = .struct name := by
    intro name hname
    obtain ⟨d, hd, rfl⟩ := Option.map_eq_some_iff.mp hname
    rw [hp.2]
    exact (hspec.struct d hd).2.2
  split
  · exact .pure ⟨hp.1, trivial, spec.struct.map StructDef.name,
      fun name hname => ⟨p, rfl, hstruct name hname⟩, rfl⟩
  · exact keeps_get.bind fun _ _ => ((stmtReaders _).block _).bind fun b hbody =>
      .pure ⟨⟨hp.1, hbody⟩, trivial, spec.struct.map StructDef.name,
        fun name hname => ⟨p, rfl, hstruct name hname⟩, rfl⟩

/-- Variables behind their type. -/
theorem yields_globals (loc : Location) (hq : ∀ e ∈ q.layout, e.Worded true) (hspec : spec.Spelt S) :
    Yields (spec.defined ++ S) (do return .globals (← declaration q spec loc)) (YieldsTopLevel S) := by
  refine (keeps_declaration loc hq hspec).bind fun d hd => .pure ?_
  have hdefined : spec.defined = (TopLevel.globals d).defined := by rw [TypeSpec.defined, ← hd.2]; rfl
  rw [hdefined]
  exact .keeps hd.1 fun s hs => (hspec.struct s (hd.2 ▸ hs)).2.1

/-- A function or variables behind their type. -/
theorem yields_declared (loc : Location) (hq : ∀ e ∈ q.layout, e.Worded true) (hspec : spec.Spelt S) :
    Yields (spec.defined ++ S) (do
      let c ← get
      if let .identifier _ := c.peek.token then
        if c.ahead? 1 == some (.punct .leftParen) then
          let p ← prototype q spec loc
          if ← accept .semicolon then
            return .prototype p
          let (bodyLoc, body) ← block (← get).fuel
          return .function ⟨p, bodyLoc, body⟩
      return .globals (← declaration q spec loc)) (YieldsTopLevel S) := by
  refine keeps_get.bind fun _ _ => ?_
  dsimp only
  split
  · split
    · exact yields_function loc hspec
    · exact yields_globals loc hq hspec
  · exact yields_globals loc hq hspec

/-- What starts with a type. -/
theorem yields_typed (loc : Location) (hq : ∀ e ∈ q.layout, e.Worded true) :
    Yields S (do
      let spec ← typeSpec
      if let some d := spec.struct then
        if (← check .semicolon) && q == {} then
          let _ ← advance
          return .struct d
      let c ← get
      if let .identifier _ := c.peek.token then
        if c.ahead? 1 == some (.punct .leftParen) then
          let p ← prototype q spec loc
          if ← accept .semicolon then
            return .prototype p
          let (bodyLoc, body) ← block (← get).fuel
          return .function ⟨p, bodyLoc, body⟩
      return .globals (← declaration q spec loc)) (YieldsTopLevel S) := by
  refine learns_typeSpec.bind fun spec hspec => ?_
  dsimp only
  split
  · rename_i d hd
    refine keeps_check.bind fun _ _ => ?_
    split
    · have hdefined : spec.defined = (TopLevel.struct d).defined := by simp [TypeSpec.defined, hd, TopLevel.defined]
      obtain ⟨hworded, hknown, -⟩ := hspec.struct d hd
      exact keeps_advance.bind fun _ _ => .pure (hdefined ▸ .keeps hworded hknown)
    · exact yields_declared loc hq hspec
  · exact yields_declared loc hq hspec

theorem yields_topLevel : Yields S topLevel (YieldsTopLevel S) := by
  refine keeps_here.bind fun loc _ => keeps_acceptWord.bind fun _ _ => ?_
  split
  · exact yields_defaultPrecision _
  · refine keeps_qualifiers.bind fun q hq => keeps_accept.bind fun _ _ => ?_
    split
    · exact .pure (.keeps hq trivial)
    · -- What is no interface block starts with a type.
      refine yields_get_bind fun c hc => ?_
      dsimp only
      split
      · rename_i name hname
        split
        · rename_i hblock
          rw [hc.structs] at hblock
          intro d c' h
          obtain ⟨⟨b, c₁⟩, hb, hd⟩ := Except.bind_eq_ok_iff.mp h
          cases hd
          have hfresh : ∀ other, c.peek.token = .identifier other → other ∉ S := fun other hother => by
            obtain rfl : name = other := by simpa [hname] using hother
            simpa using (Bool.and_eq_true_iff.mp hblock).1
          obtain ⟨_, hc', ⟨hworded, hknown⟩, rfl⟩ := yieldsAt_interfaceBlock loc hc hq hfresh b _ hb
          exact ⟨_, hc', .keeps hworded hknown⟩
        · exact yields_typed loc hq c hc
      · exact yields_typed loc hq c hc

theorem yields_topLevels (fuel : Nat) : Yields S (topLevels fuel)
    fun ds _ => (∀ d ∈ ds, d.Worded true Expr.Spelt) ∧ TopLevel.KnownAll S ds := by
  induction fuel generalizing S with
  | zero => exact yields_fail _
  | succ fuel ih =>
    rw [topLevels]
    refine keeps_token.bind fun _ _ => ?_
    split
    · exact .pure ⟨by simp, trivial⟩
    · refine yields_topLevel.bind ?_
      rintro d _ ⟨hworded, hknown, E, hE, rfl⟩
      exact ih.bind fun ds _ hds =>
        .pure ⟨List.forall_mem_cons.mpr ⟨hworded, hds.1⟩, hknown, E, hE, hds.2⟩

end Parse

namespace Shader

variable {lexemes : List Lexeme}

theorem isRead_takeVersion (h : ∀ l ∈ lexemes, l.token.IsRead) :
    ∀ l ∈ (takeVersion lexemes).2.2, l.token.IsRead := by
  unfold takeVersion
  split
  · split
    · exact (List.forall_mem_cons.mp h).2
    · exact h
  · exact h

/-- The names of extensions stand on one line. -/
theorem isRead_takeExtensions {uses : List ExtensionUse} {others : List Lexeme}
    (hread : ∀ l ∈ lexemes, l.token.IsRead) (h : takeExtensions lexemes = .ok (uses, others)) :
    (∀ e ∈ uses, '\n' ∉ e.name.toList) ∧ ∀ l ∈ others, l.token.IsRead := by
  fun_induction takeExtensions lexemes generalizing uses others with
  | case1 =>
    cases h
    simp
  | case2 => cases h
  | case3 name word loc rest behavior hword ih =>
    obtain ⟨hname, hrest⟩ := List.forall_mem_cons.mp hread
    obtain ⟨⟨uses', others'⟩, htake, heq⟩ := Except.bind_eq_ok_iff.mp h
    cases heq
    obtain ⟨huses, hothers⟩ := ih hrest htake
    exact ⟨List.forall_mem_cons.mpr ⟨hname, huses⟩, hothers⟩
  | case4 l rest hl ih =>
    obtain ⟨hl, hrest⟩ := List.forall_mem_cons.mp hread
    obtain ⟨⟨uses', others'⟩, htake, heq⟩ := Except.bind_eq_ok_iff.mp h
    cases heq
    obtain ⟨huses, hothers⟩ := ih hrest htake
    exact ⟨huses, List.forall_mem_cons.mpr ⟨hl, hothers⟩⟩

/-- **The declarations of a list of tokens are made of words**, they are known where they stand, and the
names of extensions stand on one line. -/
theorem spelt_of_ofTokens {s : Shader} (h : ofTokens lexemes = .ok s)
    (hread : ∀ l ∈ lexemes, l.token.IsRead) :
    (∀ e ∈ s.extensions, '\n' ∉ e.name.toList) ∧ (∀ d ∈ s.declarations, d.Worded true Expr.Spelt) ∧
      TopLevel.KnownAll [] s.declarations := by
  unfold ofTokens at h
  dsimp only at h
  split at h
  · cases h
  · obtain ⟨⟨extensions, rest⟩, hrest, h⟩ := Except.bind_eq_ok_iff.mp h
    obtain ⟨⟨declarations, c⟩, hds, h⟩ := Except.bind_eq_ok_iff.mp h
    cases h
    obtain ⟨hextensions, hothers⟩ := isRead_takeExtensions (isRead_takeVersion hread) hrest
    have hc : (Cursor.ofLexemes rest).Holds [] := ⟨hothers, rfl, by simp⟩
    obtain ⟨_, _, hdeclarations⟩ := Parse.yields_topLevels _ _ hc _ _ hds
    exact ⟨hextensions, hdeclarations⟩

end Shader

end GlslEs
