import GlslEs.Constant.Eval

/-!
# Scopes

Two tables of names with nested scopes.

* `Scopes α` gives an `α` to names; a declaration hides those of the same name further out.
* `SymbolTable` keeps the variables of a shader: the built-in ones outermost, then the global
  ones, then the frames of functions, loops and blocks.  Within one frame a name is declared
  once.
-/

namespace GlslEs

/-- Names with nested scopes; the innermost scope is always there. -/
structure Scopes (α : Type) where
  inner : List (String × α) := []
  outer : List (List (String × α)) := []

namespace Scopes

variable {α : Type}

def empty : Scopes α := {}

def enter (s : Scopes α) : Scopes α := ⟨[], s.inner :: s.outer⟩

/-- Closes the innermost scope; the outermost one stays. -/
def exit (s : Scopes α) : Scopes α :=
  match s.outer with
  | [] => s
  | frame :: outer => ⟨frame, outer⟩

def declare (s : Scopes α) (name : String) (a : α) : Scopes α :=
  { s with inner := (name, a) :: s.inner }

def find? (s : Scopes α) (name : String) : Option α :=
  (s.inner :: s.outer).findSome? fun frame => frame.lookup name

end Scopes

/-- The values of constants in scope; a name may be declared without a value. -/
abbrev ConstantScopes := Scopes (Option (List Constant))

def ConstantScopes.value? (s : ConstantScopes) (name : String) : Option (List Constant) :=
  (s.find? name).join

/-! ### Symbols -/

/-- What a symbol stands for. -/
inductive SymbolKind where
  | variable_
  | parameter
  | builtin
deriving DecidableEq, Repr, Inhabited

namespace SymbolKind

def label : SymbolKind → String
  | .variable_ => "変数"
  | .parameter => "パラメータ"
  | .builtin => "組み込み変数"

end SymbolKind

/-- A declared variable. -/
structure Symbol where
  name : String
  kind : SymbolKind
  ty : Ty
  qualifiers : QualifierSet
  value : Option (List Constant)
  loc : Location
deriving DecidableEq, Repr, Inhabited

/-- What a frame belongs to. -/
inductive ScopeKind where
  | global
  | function
  | loop
  | block
deriving DecidableEq, Repr, Inhabited

namespace ScopeKind

def name : ScopeKind → String
  | .global => "Global"
  | .function => "Function"
  | .loop => "Loop"
  | .block => "Block"

end ScopeKind

/-- The symbols of one function, loop or block. -/
structure Frame where
  kind : ScopeKind
  symbols : List Symbol := []
deriving Repr, Inhabited

/-- The symbols in scope, the innermost frame first. -/
structure SymbolTable where
  builtins : List Symbol := []
  globals : List Symbol := []
  frames : List Frame := []
deriving Repr, Inhabited

namespace SymbolTable

def find (symbols : List Symbol) (name : String) : Option Symbol :=
  symbols.find? (·.name == name)

def enter (t : SymbolTable) (kind : ScopeKind) : SymbolTable :=
  { t with frames := ⟨kind, []⟩ :: t.frames }

/-- Closes the innermost frame; global symbols stay. -/
def exit (t : SymbolTable) : SymbolTable :=
  { t with frames := t.frames.tail }

def kind (t : SymbolTable) : ScopeKind :=
  (t.frames.head?.map (·.kind)).getD .global

def isGlobal (t : SymbolTable) : Bool := t.kind == .global

def current (t : SymbolTable) : List Symbol :=
  (t.frames.head?.map (·.symbols)).getD t.globals

/-- Declares a built-in symbol, in place of one with the same name. -/
def declareBuiltin (t : SymbolTable) (s : Symbol) : SymbolTable :=
  { t with builtins := s :: t.builtins }

/-- Declares a symbol in the innermost scope without asking whether its name is free. -/
def insert (t : SymbolTable) (s : Symbol) : SymbolTable :=
  match t.frames with
  | [] => { t with globals := s :: t.globals }
  | frame :: frames =>
    { t with frames := { frame with symbols := s :: frame.symbols } :: frames }

/-- Declares a symbol in the innermost scope, unless its name is taken there. -/
def declare (t : SymbolTable) (s : Symbol) : Except Symbol SymbolTable :=
  match find t.current s.name with
  | some existing => .error existing
  | none => .ok (t.insert s)

def findGlobal? (t : SymbolTable) (name : String) : Option Symbol := find t.globals name

def find? (t : SymbolTable) (name : String) : Option Symbol :=
  (t.frames.map (·.symbols) ++ [t.globals, t.builtins]).findSome? (find · name)

def constant? (t : SymbolTable) (name : String) : Option (List Constant) :=
  (t.find? name).bind (·.value)

end SymbolTable

end GlslEs
