import GlslEs.Declaration.Parser
import GlslEs.Proofs.Reading.Expr

/-!
# Reading declarations yields words

Qualifiers, types, structures, interface blocks, function heads and variables.  The only reader
that learns a structure is `structDef`; what stands behind a structure's definition is read with
its name known.
-/

namespace GlslEs

/-- The structure that is defined in front of the declared names. -/
def TypeSpec.defined (spec : TypeSpec) : List String := (spec.struct.map (·.name)).toList

/-- All words in front of the declared names are words, and the structure has members with types that are
named where the structures `S` are known. -/
structure TypeSpec.Spelt (S : List String) (spec : TypeSpec) : Prop where
  struct : ∀ d ∈ spec.struct,
    d.Worded true Expr.Spelt ∧ (∀ m ∈ d.members, m.ty.Named S) ∧ spec.ty = .struct d.name
  ty : Lexer.Wordlike true spec.ty.baseName
  array : ∀ a ∈ spec.array, a.Worded Expr.Spelt

namespace Parse

variable {c : Cursor} {S : List String} {q : TypeQualifiers} {spec : TypeSpec}

/-! ### Qualifiers and types -/

theorem keeps_layoutValue {name : String} (loc : Location) (hname : Lexer.Wordlike true name) :
    Keeps S (do
      if ← accept .equal then
        match (← advance).token with
        | .int n => return ⟨name, some n.toNat, loc⟩
        | .uint n => return ⟨name, some n.toNat, loc⟩
        | other => failPassed (.needed .layoutValue other)
      else
        return LayoutEntry.mk name none loc) (LayoutEntry.Worded true) := by
  refine keeps_accept.bind fun _ _ => ?_
  split
  · refine keeps_advance.bind fun _ _ => ?_
    split
    · exact .pure ⟨⟨hname, by simpa using UInt32.toNat_lt _⟩, rfl⟩
    · exact .pure ⟨⟨hname, by simpa using UInt32.toNat_lt _⟩, rfl⟩
    · exact yields_failPassed _
  · exact .pure ⟨⟨hname, by simp⟩, rfl⟩

theorem keeps_layoutEntry : Keeps S layoutEntry (LayoutEntry.Worded true) := by
  refine keeps_here.bind fun loc _ => keeps_advance.bind fun l htoken => ?_
  obtain ⟨token, _⟩ := l
  dsimp only
  split
  · exact keeps_layoutValue loc (IsName.wordlike htoken)
  · exact keeps_layoutValue loc Keyword.shared.wordlike
  · exact yields_failPassed_bind _

theorem keeps_layoutList : Keeps S layoutList fun es => ∀ e ∈ es, e.Worded true :=
  keeps_expect.bind fun _ _ => keeps_get.bind fun _ _ =>
    (keeps_commaSeparated keeps_layoutEntry _).bind fun _ hentries =>
      keeps_expect.bind fun _ _ => .pure ⟨hentries, rfl⟩

theorem keeps_qualifiersFrom (fuel : Nat) (hq : ∀ e ∈ q.layout, e.Worded true) :
    Keeps S (qualifiersFrom fuel q) fun q => ∀ e ∈ q.layout, e.Worded true := by
  induction fuel generalizing q with
  | zero => exact yields_fail _
  | succ fuel ih =>
    have one (q' : TypeQualifiers) (hlayout : q'.layout = q.layout) : Keeps S (do
        let _ ← advance
        qualifiersFrom fuel q') fun q => ∀ e ∈ q.layout, e.Worded true :=
      keeps_advance.bind fun _ _ => ih (hlayout ▸ hq)
    rw [qualifiersFrom]
    refine keeps_token.bind fun _ _ => ?_
    split
    · exact one _ rfl
    · split
      · split
        · exact yields_fail _
        · exact one _ rfl
      · split
        · exact keeps_advance.bind fun _ _ => keeps_layoutList.bind fun _ hentries =>
            ih (List.forall_mem_append.mpr ⟨hq, hentries⟩)
        · exact one _ rfl
        · exact one _ rfl
        · exact one _ rfl
        · exact one _ rfl
        · exact .pure ⟨hq, rfl⟩
    · exact .pure ⟨hq, rfl⟩

theorem keeps_qualifiers : Keeps S qualifiers fun q => ∀ e ∈ q.layout, e.Worded true :=
  keeps_get.bind fun _ _ => keeps_qualifiersFrom _ (by simp)

theorem keeps_arrayLength? : Keeps S arrayLength? fun a => ∀ l ∈ a, l.Worded Expr.Spelt := by
  refine keeps_accept.bind fun _ _ => ?_
  split
  · refine keeps_accept.bind fun _ _ => ?_
    split
    · exact .pure ⟨by simp [ArrayLength.Worded], rfl⟩
    · refine keeps_get.bind fun _ _ => (exprReaders _).conditional.bind fun length hlength =>
        keeps_expect.bind fun _ _ => keeps_check.bind fun _ _ => ?_
      split
      · exact yields_fail_bind _
      · exact .pure ⟨by simpa [ArrayLength.Worded] using hlength, rfl⟩
  · exact .pure ⟨by simp, rfl⟩

theorem keeps_namedType : Keeps S namedType (Ty.Named S) := by
  refine keeps_token.bind fun t htoken => ?_
  split
  · exact keeps_advance.bind fun _ _ => .pure ⟨.inl htoken, rfl⟩
  · rename_i name
    refine keeps_isStruct.bind fun known hknown => ?_
    split
    · rename_i hstruct
      rw [hknown, List.contains_iff_mem] at hstruct
      exact keeps_advance.bind fun _ _ => .pure ⟨.inr ⟨name, hstruct, htoken, rfl⟩, rfl⟩
    · exact yields_fail _
  · exact yields_fail _

/-! ### Structures -/

/-- An array length behind a name comes before the one behind the type. -/
theorem forall_mem_orElse {own array : Option ArrayLength} (hown : ∀ l ∈ own, l.Worded Expr.Spelt)
    (harray : ∀ l ∈ array, l.Worded Expr.Spelt) : ∀ l ∈ (own <|> array), l.Worded Expr.Spelt := by
  cases own with
  | none => exact harray
  | some l => exact hown

theorem keeps_memberGroup :
    Keeps S memberGroup fun ms => ∀ m ∈ ms, m.Worded true Expr.Spelt ∧ m.ty.Named S := by
  have group {layout : List LayoutEntry} (hlayout : ∀ e ∈ layout, e.Worded true) : Keeps S (do
        let precision ← precision?
        if ← checkWord .struct then fail .nestedStruct
        let ty ← namedType
        let array ← arrayLength?
        let member : Parse Member := do
          let loc ← here
          let name ← name .memberName
          let own ← arrayLength?
          return { name, ty, array := own <|> array, layout, precision, loc }
        let members ← commaSeparated member (← get).fuel
        let _ ← expect .semicolon .memberEnd
        return members) fun ms => ∀ m ∈ ms, m.Worded true Expr.Spelt ∧ m.ty.Named S := by
    refine keeps_precision?.bind fun _ _ => keeps_checkWord.bind fun _ _ => ?_
    split
    · exact yields_fail_bind _
    · refine keeps_namedType.bind fun ty hty => keeps_arrayLength?.bind fun array harray =>
        keeps_get.bind fun _ _ => Keeps.bind (P := fun ms => ∀ m ∈ ms, _) (keeps_commaSeparated ?_ _)
          fun members hmembers => keeps_expect.bind fun _ _ => .pure ⟨hmembers, rfl⟩
      exact keeps_here.bind fun _ _ => keeps_name.bind fun name hname =>
        keeps_arrayLength?.bind fun own hown =>
          .pure ⟨⟨⟨hname.wordlike, .inl hty.wordlike, forall_mem_orElse hown harray, hlayout⟩, hty⟩, rfl⟩
  refine keeps_acceptWord.bind fun _ _ => ?_
  dsimp only
  split
  · exact keeps_layoutList.bind fun _ hlayout => group hlayout
  · exact group (by simp)

theorem keeps_members (fuel : Nat) :
    Keeps S (members fuel) fun ms => ∀ m ∈ ms, m.Worded true Expr.Spelt ∧ m.ty.Named S := by
  induction fuel with
  | zero => exact yields_fail _
  | succ fuel ih =>
    rw [members]
    refine keeps_accept.bind fun _ _ => ?_
    split
    · exact .pure ⟨by simp, rfl⟩
    · refine keeps_token.bind fun _ _ => ?_
      split
      · exact yields_fail_bind _
      · exact keeps_memberGroup.bind fun group hgroup => ih.bind fun rest hrest =>
          .pure ⟨List.forall_mem_append.mpr ⟨hgroup, hrest⟩, rfl⟩

theorem learns_structDef : Learns S structDef
    (fun d => d.Worded true Expr.Spelt ∧ ∀ m ∈ d.members, m.ty.Named S) fun d => [d.name] := by
  refine keeps_expectWord.bind fun loc _ => keeps_name.bind fun name hname =>
    keeps_expect.bind fun _ _ => keeps_get.bind fun _ _ => (keeps_members _).bind fun members hmembers => ?_
  dsimp only
  split
  · exact yields_failPassed_bind _
  · -- From here on the name is that of a structure.
    rintro c hc _ _ ⟨⟩
    have hc : Cursor.Holds (name :: S) { c with structs := name :: c.structs } :=
      ⟨hc.tokens, by simp [hc.structs], by simpa [hname] using hc.names⟩
    exact ⟨_, hc, ⟨⟨hname.wordlike, fun m hm => (hmembers m hm).1⟩, fun m hm => (hmembers m hm).2⟩, rfl⟩

theorem learns_typeSpec : Learns S typeSpec (TypeSpec.Spelt S) TypeSpec.defined := by
  refine keeps_checkWord.bind fun _ _ => ?_
  split
  · exact learns_structDef.bind fun d hd => keeps_arrayLength?.bind fun array harray =>
      .pure ⟨⟨by simpa using hd, hd.1.name, harray⟩, rfl⟩
  · exact keeps_namedType.bind fun ty hty => keeps_arrayLength?.bind fun array harray =>
      .pure ⟨⟨by simp, hty.wordlike, harray⟩, rfl⟩

/-! ### Declarations -/

/-- An interface block behind its name. -/
theorem keeps_blockBody {blockName : String} (loc : Location) (hq : ∀ e ∈ q.layout, e.Worded true)
    (hname : IsName blockName) :
    Keeps S (do
      let _ ← expect .leftBrace .blockOpen
      let members ← members (← get).fuel
      let (instanceName, array) ← match ← token with
        | .identifier instanceName =>
          let _ ← advance
          pure (some instanceName, ← arrayLength?)
        | _ => pure (none, none)
      let _ ← expect .semicolon .blockEnd
      return InterfaceBlock.mk q blockName members instanceName array loc)
      fun b => b.Worded true Expr.Spelt ∧ (∀ m ∈ b.members, m.ty.Named S) ∧ b.name = blockName := by
  refine keeps_expect.bind fun _ _ => keeps_get.bind fun _ _ => (keeps_members _).bind fun members hmembers =>
    keeps_token.bind fun t htoken => ?_
  have close {instanceName : Option String} {array : Option ArrayLength}
      (hinstance : ∀ name ∈ instanceName, IsName name) (harray : ∀ l ∈ array, l.Worded Expr.Spelt)
      (hnone : instanceName = none → array = none) : Keeps S (do
        let _ ← expect .semicolon .blockEnd
        return InterfaceBlock.mk q blockName members instanceName array loc)
        fun b => b.Worded true Expr.Spelt ∧ (∀ m ∈ b.members, m.ty.Named S) ∧ b.name = blockName :=
    keeps_expect.bind fun _ _ => .pure ⟨⟨⟨hq, hname.wordlike, fun m hm => (hmembers m hm).1,
      fun name hname => (hinstance name hname).wordlike, harray, hnone⟩,
      fun m hm => (hmembers m hm).2, rfl⟩, rfl⟩
  dsimp only
  split
  · exact keeps_advance.bind fun _ _ => keeps_arrayLength?.bind fun array harray =>
      close (by simpa [Token.IsRead] using htoken) harray (by simp)
  · exact close (by simp) (by simp) (by simp)

/-- The name of an interface block is that of no structure if the next name is not. -/
theorem yieldsAt_interfaceBlock (loc : Location) (hc : c.Holds S) (hq : ∀ e ∈ q.layout, e.Worded true)
    (hname : ∀ name, c.peek.token = .identifier name → name ∉ S) : YieldsAt c (interfaceBlock q loc)
      fun b S' => (b.Worded true Expr.Spelt ∧ (TopLevel.block b).Known S) ∧ S' = S := by
  have named {body : String → Parse InterfaceBlock} (hbody : ∀ {name}, IsName name → Keeps S (body name)
        fun b => b.Worded true Expr.Spelt ∧ (∀ m ∈ b.members, m.ty.Named S) ∧ b.name = name) :
      YieldsAt c (name .blockName >>= body)
        fun b S' => (b.Worded true Expr.Spelt ∧ (TopLevel.block b).Known S) ∧ S' = S := by
    intro b c' h
    obtain ⟨⟨word, c₁⟩, hword, hb⟩ := Except.bind_eq_ok_iff.mp h
    obtain ⟨_, hc₁, hisName, rfl⟩ := keeps_name c hc word c₁ hword
    obtain ⟨_, hc', ⟨hworded, hmembers, rfl⟩, rfl⟩ := hbody hisName c₁ hc₁ b c' hb
    exact ⟨_, hc', ⟨hworded, hmembers, hname _ (peek_of_name hword).1⟩, rfl⟩
  unfold interfaceBlock
  dsimp only
  split
  · exact named (keeps_blockBody loc hq)
  · exact named (keeps_blockBody loc hq)
  · exact named (keeps_blockBody loc hq)
  · exact named (keeps_blockBody loc hq)
  · rintro _ _ ⟨⟩

theorem keeps_direction : Keeps S direction fun _ => True := by
  have word (d : Direction) : Keeps S (do
      let _ ← advance
      return d) fun _ => True := keeps_advance.bind fun _ _ => .pure ⟨trivial, rfl⟩
  refine keeps_token.bind fun _ _ => ?_
  split
  · exact word _
  · exact word _
  · exact word _
  · exact .pure ⟨trivial, rfl⟩

theorem keeps_parameter : Keeps S parameter (Parameter.Worded true Expr.Spelt) := by
  refine keeps_here.bind fun _ _ => keeps_acceptWord.bind fun _ _ => keeps_direction.bind fun _ _ =>
    keeps_precision?.bind fun _ _ => keeps_checkWord.bind fun _ _ => ?_
  dsimp only
  split
  · exact yields_fail_bind _
  · refine keeps_namedType.bind fun ty hty => keeps_arrayLength?.bind fun array harray =>
      keeps_token.bind fun t htoken => ?_
    split
    · exact keeps_advance.bind fun _ _ => keeps_arrayLength?.bind fun own hown => .pure
        ⟨⟨by simpa using IsName.wordlike htoken, .inl hty.wordlike, forall_mem_orElse hown harray⟩, rfl⟩
    · exact .pure ⟨⟨by simp, .inl hty.wordlike, harray⟩, rfl⟩

theorem keeps_prototype (q : TypeQualifiers) (loc : Location)
    (hresult : Lexer.Wordlike true spec.ty.baseName) : Keeps S (prototype q spec loc)
      fun p => p.Worded true Expr.Spelt ∧ p.result = spec.ty := by
  have close {name : String} {parameters : List Parameter} (hname : IsName name)
      (hparameters : ∀ x ∈ parameters, x.Worded true Expr.Spelt) : Keeps S (do
        let _ ← expect .rightParen .functionClose
        return Prototype.mk name spec.ty q.precision parameters loc)
        fun p => p.Worded true Expr.Spelt ∧ p.result = spec.ty :=
    keeps_expect.bind fun _ _ => .pure ⟨⟨⟨hname.wordlike, hresult, hparameters⟩, rfl⟩, rfl⟩
  unfold prototype
  dsimp only
  split
  · exact yields_fail_bind _
  · split
    · exact yields_fail_bind _
    · refine keeps_name.bind fun name hname => keeps_expect.bind fun _ _ =>
        keeps_atVoidList.bind fun _ _ => keeps_check.bind fun _ _ => ?_
      split
      · exact keeps_advance.bind fun _ _ => close hname (by simp)
      · split
        · exact close hname (by simp)
        · exact keeps_get.bind fun _ _ => (keeps_commaSeparated keeps_parameter _).bind fun _ hparameters =>
            close hname hparameters

theorem keeps_declarator (harray : ∀ a ∈ spec.array, a.Worded Expr.Spelt) :
    Keeps S (declarator spec) (Declarator.Worded true Expr.Spelt) := by
  refine keeps_here.bind fun _ _ => keeps_name.bind fun name hname => keeps_arrayLength?.bind fun own hown =>
    keeps_accept.bind fun _ _ => ?_
  dsimp only
  split
  · refine keeps_get.bind fun _ _ => Keeps.bind (P := fun v => ∀ e ∈ v, e.Spelt)
      ((exprReaders _).assignment.map (by simp)) fun value hvalue => ?_
    exact .pure ⟨⟨hname.wordlike, forall_mem_orElse hown harray, hvalue⟩, rfl⟩
  · exact .pure ⟨⟨hname.wordlike, forall_mem_orElse hown harray, by simp⟩, rfl⟩

/-- The variables of a declaration, read behind its type. -/
theorem keeps_declaration {S₀ : List String} (loc : Location) (hq : ∀ e ∈ q.layout, e.Worded true)
    (hspec : spec.Spelt S₀) : Keeps S (declaration q spec loc)
      fun d => d.Worded true Expr.Spelt ∧ d.struct = spec.struct :=
  keeps_get.bind fun _ _ => (keeps_commaSeparated (keeps_declarator hspec.array) _).bind fun _ hdeclarators =>
    keeps_expect.bind fun _ _ =>
      .pure ⟨⟨⟨hq, fun s hs => (hspec.struct s hs).1, hspec.ty, hdeclarators⟩, rfl⟩, rfl⟩

end Parse

end GlslEs
