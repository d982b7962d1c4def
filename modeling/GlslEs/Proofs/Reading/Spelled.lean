import GlslEs.Proofs.Reading.Lexer
import GlslEs.Proofs.Tree
import GlslEs.Shader

/-!
# Syntax that tokens spell

Reading takes every name and type word from a token, and it tells the names of structures from
other names.  All that is left of this in the syntax is that words are words: the names of what is
declared, of members, of types and of layout entries.  A type whose array length is not a constant is
written as `<error>`, which no word is.

* `Expr.Spelt`: every name of an expression is that of a token.
* `Declaration.Worded`, `Prototype.Worded`, `TopLevel.Worded`: all words are words, and `E` holds of all
  expressions.
* `TopLevel.KnownAll`: the types of members are those of type words or of structures known by then.

A structure is known from its definition on to the end of the text; `defined` lists the structures
that a piece of syntax adds, the last one first.
-/

namespace GlslEs

/-! ### Words -/

theorem Keyword.wordlike {strict : Bool} (k : Keyword) : Lexer.Wordlike strict k.text := by
  cases k <;> exact ⟨⟨_, _, rfl, by decide⟩, fun _ => by decide⟩

theorem Ty.word_of_ofKeyword? {strict : Bool} {word : String} {ty : Ty} (h : ofKeyword? word = some ty) :
    Lexer.Wordlike strict ty.baseName ∧ Token.ofWord ty.baseName = .typeName ty ∧ ty.array = none := by
  unfold ofKeyword? at h
  split at h
  case h_30 =>
    obtain ⟨s, hs, rfl⟩ := Option.map_eq_some_iff.mp h
    have hmem := List.mem_of_find?_eq_some hs
    have hall : ∀ s ∈ Sampler.all, s.name.toList.head?.any Text.isLetter = true ∧
        s.name.toList.tail.all Text.isNameChar = true ∧ (Token.isReservedWord s.name = false ∧
        Lexer.hasDoubleUnderscore s.name.toList = false) ∧
        Token.ofWord s.name = .typeName ⟨.sampler s, none⟩ := by decide +kernel
    obtain ⟨hhead, htail, hallowed, htoken⟩ := hall s hmem
    refine ⟨⟨?_, fun _ => hallowed⟩, htoken, rfl⟩
    cases hname : s.name.toList with
    | nil => simp [hname] at hhead
    | cons c cs => exact ⟨c, cs, hname, by simpa [hname] using hhead, by simpa [hname] using htail⟩
  all_goals
    obtain rfl := Option.some.inj h
    exact ⟨⟨⟨_, _, rfl, by decide⟩, fun _ => by decide⟩, rfl, rfl⟩

/-- The type is that of a type word or of one of the structures `S`. -/
def Ty.Named (S : List String) (ty : Ty) : Prop :=
  (∃ word, ofKeyword? word = some ty) ∨ ∃ name ∈ S, IsName name ∧ ty = .struct name

theorem Ty.Named.wordlike {strict : Bool} {S : List String} {ty : Ty} (h : ty.Named S) :
    Lexer.Wordlike strict ty.baseName := by
  rcases h with ⟨word, hword⟩ | ⟨name, -, hname, rfl⟩
  · exact (word_of_ofKeyword? hword).1
  · exact hname.wordlike

/-! ### Expressions -/

namespace Expr

/-- The name of a node is that of a token, and a list of items is not empty. -/
def NodeSpelt : Expr → Prop
  | .var _ name | .field _ _ name | .call _ (.user name) _ => IsName name
  | .call _ (.constructor ty) _ => ∃ S word, Ty.Named S word ∧ ty.base = word.base
  | .call _ (.builtin _) _ | .swizzle .. => False
  | .seq _ exprs => exprs ≠ []
  | .lit .. | .unary .. | .binary .. | .assign .. | .ternary .. | .index .. => True

/-- Every name of an expression is that of a token. -/
def Spelt (e : Expr) : Prop := ∀ x ∈ e.nodes, x.NodeSpelt

theorem spelt_iff {e : Expr} : e.Spelt ↔ e.NodeSpelt ∧ ∀ c ∈ e.children, c.Spelt := forall_mem_nodes

end Expr

/-! ### Declarations -/

/-- The type has a word; unless `strict`, it may also be that of an array whose length is not a constant. -/
def Ty.Worded (strict : Bool) (array : Option ArrayLength) (ty : Ty) : Prop :=
  Lexer.Wordlike strict ty.baseName ∨ strict = false ∧ ty.isError = true ∧ array.isSome = true

/-- The structures that a declaration defines. -/
def Declaration.defined (d : Declaration) : List String := (d.struct.map (·.name)).toList

section

variable (strict : Bool) (E : Expr → Prop)

/-- The entry has a word and a value that a literal can give. -/
structure LayoutEntry.Worded (e : LayoutEntry) : Prop where
  name : Lexer.Wordlike strict e.name
  value : ∀ n ∈ e.value, n < UInt32.size

/-- `E` holds of the length, if there is one. -/
def ArrayLength.Worded : ArrayLength → Prop
  | .sized e => E e
  | .unsized => True

structure Member.Worded (m : Member) : Prop where
  name : Lexer.Wordlike strict m.name
  ty : m.ty.Worded strict m.array
  array : ∀ a ∈ m.array, a.Worded E
  layout : ∀ e ∈ m.layout, e.Worded strict

structure StructDef.Worded (d : StructDef) : Prop where
  name : Lexer.Wordlike strict d.name
  members : ∀ m ∈ d.members, m.Worded strict E

structure Declarator.Worded (x : Declarator) : Prop where
  name : Lexer.Wordlike strict x.name
  array : ∀ a ∈ x.array, a.Worded E
  value : ∀ e ∈ x.value, E e

structure Declaration.Worded (d : Declaration) : Prop where
  layout : ∀ e ∈ d.qualifiers.layout, e.Worded strict
  struct : ∀ s ∈ d.struct, s.Worded strict E
  ty : Lexer.Wordlike strict d.ty.baseName
  declarators : ∀ x ∈ d.declarators, x.Worded strict E

structure InterfaceBlock.Worded (b : InterfaceBlock) : Prop where
  layout : ∀ e ∈ b.qualifiers.layout, e.Worded strict
  name : Lexer.Wordlike strict b.name
  members : ∀ m ∈ b.members, m.Worded strict E
  instanceName : ∀ name ∈ b.instanceName, Lexer.Wordlike strict name
  array : ∀ a ∈ b.array, a.Worded E
  array_none : b.instanceName = none → b.array = none

structure Parameter.Worded (x : Parameter) : Prop where
  name : ∀ name ∈ x.name, Lexer.Wordlike strict name
  ty : x.ty.Worded strict x.array
  array : ∀ a ∈ x.array, a.Worded E

structure Prototype.Worded (p : Prototype) : Prop where
  name : Lexer.Wordlike strict p.name
  result : Lexer.Wordlike strict p.result.baseName
  parameters : ∀ x ∈ p.parameters, x.Worded strict E

end

/-! ### Statements -/

/-- The structures that the first part of a loop head defines. -/
def LoopStart.defined : LoopStart → List String
  | .decl _ d => d.defined
  | _ => []

namespace Stmt

/-- All words of a statement are words, and `E` holds of all its expressions. -/
abbrev Worded (strict : Bool) (E : Expr → Prop) : Stmt → Prop := Holds E (Declaration.Worded strict E)

mutual

/-- The structures that a statement defines, the last one first. -/
def defined : Stmt → List String
  | .decl _ d => d.defined
  | .block _ body | .switch _ _ _ body => definedAll body
  | .ifThen _ _ thenBranch => defined thenBranch
  | .ifElse _ _ thenBranch elseBranch => defined elseBranch ++ defined thenBranch
  | .forLoop _ start _ _ body => defined body ++ start.defined
  | .whileLoop _ _ body | .doWhile _ body _ => defined body
  | .expr .. | .label .. | .result .. | .jump .. | .empty _ => []

/-- The structures that statements define, the last one first. -/
def definedAll : List Stmt → List String
  | [] => []
  | s :: ss => definedAll ss ++ defined s

end

end Stmt

/-! ### Shaders -/

namespace TopLevel

/-- All words of a declaration are words, and `E` holds of all its expressions. -/
def Worded (strict : Bool) (E : Expr → Prop) : TopLevel → Prop
  | .precision _ ty _ => Lexer.Wordlike strict ty.baseName
  | .globals d => d.Worded strict E
  | .struct d => d.Worded strict E
  | .block b => b.Worded strict E
  | .layout q _ => ∀ e ∈ q.layout, e.Worded strict
  | .prototype p => p.Worded strict E
  | .function f => f.prototype.Worded strict E ∧ ∀ s ∈ f.body, s.Worded strict E

/-- The structures that a declaration defines and keeps, the last one first. -/
def defined : TopLevel → List String
  | .globals d => d.defined
  | .struct d => [d.name]
  | .function f => Stmt.definedAll f.body
  | .precision .. | .block _ | .layout .. | .prototype _ => []

/-- The head of a declaration that is a function or announces one. -/
def head? : TopLevel → Option Prototype
  | .prototype p => some p
  | .function f => some f.prototype
  | _ => none

/-- The types of members are named where the structures `S` are known, and the name of a block is
that of no structure. -/
def Known (S : List String) : TopLevel → Prop
  | .globals d => ∀ s ∈ d.struct, ∀ m ∈ s.members, m.ty.Named S
  | .struct d => ∀ m ∈ d.members, m.ty.Named S
  | .block b => (∀ m ∈ b.members, m.ty.Named S) ∧ b.name ∉ S
  | _ => True

/-- Each declaration is known where the structures of those before it are.  A structure that is
defined in front of a function's name is known from there on, but the tree of the function does not keep
the definition; `E` is its name. -/
def KnownAll (S : List String) : List TopLevel → Prop
  | [] => True
  | d :: ds => d.Known S ∧ ∃ E : Option String, (∀ name ∈ E, ∃ p ∈ d.head?, p.result = .struct name) ∧
      KnownAll (d.defined ++ (E.toList ++ S)) ds

end TopLevel

end GlslEs
