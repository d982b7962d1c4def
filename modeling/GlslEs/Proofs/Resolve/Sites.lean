import GlslEs.Proofs.Resolve.Settled

/-!
# What names refer to

An expression stands at a site, where certain names are known.  There a variable refers to a symbol and
a call to a function; which one is told by how many others have been declared since, and by the place of
its declaration.

* `Expr.bindings`: what the variables and users' calls in an expression refer to.
* `Shader.sites`: all expressions that are resolved in a shader, with the names known there.
* `Shader.bindings`: what all variables and users' calls in a shader refer to.
-/

namespace GlslEs

/-! ### Positions in lists -/

/-- The first item with a property, behind its position. -/
def locate? {α : Type} (p : α → Bool) : List α → Option (Nat × α)
  | [] => none
  | a :: as => if p a then some (0, a) else (locate? p as).map fun (k, b) => (k + 1, b)

section Locate

variable {α β : Type} {p q : α → Bool}

theorem map_snd_locate? (p : α → Bool) (as : List α) : (locate? p as).map (·.2) = as.find? p := by
  induction as with
  | nil => rfl
  | cons a as ih =>
    cases h : p a with
    | true => simp [locate?, h]
    | false => simp [locate?, h, ← ih, Function.comp_def]

theorem of_locate? {as : List α} {k : Nat} {a : α} (h : locate? p as = some (k, a)) :
    a ∈ as ∧ p a = true := by
  have hfind : as.find? p = some a := by rw [← map_snd_locate?, h]; rfl
  exact ⟨List.mem_of_find?_eq_some hfind, List.find?_some hfind⟩

/-- Items that keep the property keep their positions. -/
theorem locate?_map {p : β → Bool} {f : α → β} {as : List α} (h : ∀ a ∈ as, p (f a) = q a) :
    locate? p (as.map f) = (locate? q as).map fun (k, a) => (k, f a) := by
  induction as with
  | nil => rfl
  | cons a as ih =>
    rw [List.map_cons, locate?, locate?, h a List.mem_cons_self,
      ih fun x hx => h x (List.mem_cons_of_mem _ hx)]
    split
    · rfl
    · simp [Option.map_map, Function.comp_def]

end Locate

/-! ### Referents -/

/-- What a name refers to: how many declarations stand in between, and the place of the
declaration. -/
structure Referent where
  distance : Nat
  loc : Location
deriving DecidableEq, Repr

/-- What an occurrence of a name refers to. -/
inductive Binding where
  | variable_ (target : Option Referent)
  | function (target : Option Referent)
deriving DecidableEq, Repr

namespace SymbolTable

/-- The innermost symbol with a name, behind the number of symbols further in. -/
def locate? (t : SymbolTable) (name : String) : Option (Nat × Symbol) :=
  GlslEs.locate? (·.name == name) t.symbols

theorem find?_eq_find (t : SymbolTable) (name : String) : t.find? name = find t.symbols name := by
  have hsymbols : t.symbols = (t.frames.map (·.symbols) ++ [t.globals, t.builtins]).flatten := by
    simp [symbols, List.flatMap_def]
  rw [find, hsymbols, List.find?_flatten]
  rfl

theorem find?_eq_locate? (t : SymbolTable) (name : String) :
    t.find? name = (t.locate? name).map (·.2) := by
  rw [find?_eq_find, locate?, map_snd_locate?]
  rfl

end SymbolTable

namespace Names

/-- The user's function that a call with arguments of the given types calls, behind the number of
functions declared before it. -/
def locateFunction? (n : Names) (name : String) (types : List Ty) : Option (Nat × FunctionSymbol) :=
  locate? (fun f => f.name == name && f.parameters == types) n.functions

theorem find?_overloads (n : Names) (name : String) (types : List Ty) :
    (n.overloads name).find? (·.parameters == types) = (n.locateFunction? name types).map (·.2) := by
  simp only [overloads, locateFunction?, map_snd_locate?, List.find?_filter, Bool.decide_and,
    Bool.decide_eq_true]

end Names

namespace Expr

/-- What one node refers to. -/
def ownBinding (n : Names) : Expr → Option Binding
  | .var _ name => some (.variable_ ((n.symbols.locate? name).map fun (k, s) => ⟨k, s.loc⟩))
  | .call _ (.user name) args =>
    some (.function ((n.locateFunction? name (args.map ty)).map fun (k, f) => ⟨k, f.loc⟩))
  | _ => none

/-- What the variables and users' calls in a resolved expression refer to. -/
def bindings (n : Names) (e : Expr) : List Binding := e.nodes.filterMap (ownBinding n)

end Expr

/-! ### Sites -/

/-- Where an expression stands: in a statement or as the value of a variable, as the array length of a
variable, as an array length in the definition of a structure or block or in the head of a function
without a body, or as the array length of a function's parameter, behind parameters with the given
names. -/
inductive SiteKind where
  | plain
  | length
  | outline
  | parameter (before : List String)
deriving DecidableEq, Repr

/-- An expression with the names that are known where it stands. -/
structure Site where
  kind : SiteKind
  names : Names
  expr : Expr

/-- What the names at a site refer to. -/
def Site.bindings (s : Site) : List Binding := s.expr.bindings s.names

/-- What names refer to at several sites. -/
def siteBindings (sites : List Site) : List Binding := sites.flatMap Site.bindings

theorem siteBindings_append (as bs : List Site) :
    siteBindings (as ++ bs) = siteBindings as ++ siteBindings bs := List.flatMap_append

theorem siteBindings_map (kind : SiteKind) (n : Names) (es : List Expr) :
    siteBindings (es.map (⟨kind, n, ·⟩)) = es.flatMap (Expr.bindings n) :=
  List.flatMap_map (fun e => (⟨kind, n, e⟩ : Site)) Site.bindings es

/-- The sites of the array lengths of members. -/
def memberSites (n : Names) (ms : List Member) : List Site :=
  ms.flatMap fun m => (lengthExprs m.array).map (⟨.outline, n, ·⟩)

/-- The sites of a variable's value and array length. -/
def Declarator.sites (n : Names) (d : Declarator) : List Site :=
  d.value.toList.map (⟨.plain, n, ·⟩) ++ (lengthExprs d.array).map (⟨.length, n, ·⟩)

/-- The sites of the variables of a declaration. -/
def declaratorSites (q : TypeQualifiers) (ty : Ty) (n : Names) : List Declarator → List Site
  | [] => []
  | d :: ds => d.sites n ++ declaratorSites q ty (Resolve.after (Resolve.declarator q ty d) n) ds

/-- The sites of a declaration. -/
def Declaration.sites (n : Names) (d : Declaration) : List Site :=
  d.struct.toList.flatMap (fun x => memberSites n x.members) ++
    declaratorSites d.qualifiers d.ty (Resolve.after (d.struct.mapM Resolve.structDef) n) d.declarators

/-- The sites of the first part of a loop head. -/
def LoopStart.sites (n : Names) : LoopStart → List Site
  | .expr _ e => [⟨.plain, n, e⟩]
  | .decl _ d => d.sites n
  | _ => []

namespace Stmt

open Resolve

mutual

/-- The sites of a statement; `inner` says that braces open no scope of their own. -/
def sites (inner : Bool) (n : Names) : Stmt → List Site
  | .expr _ e => [⟨.plain, n, e⟩]
  | .decl _ d => d.sites n
  | .block _ body => sitesAll (if inner then n else n.enter .block) body
  | .ifThen _ condition thenBranch =>
    ⟨.plain, n, condition⟩ :: sites true (n.enter .block) thenBranch
  | .ifElse _ condition thenBranch elseBranch =>
    ⟨.plain, n, condition⟩ :: (sites true (n.enter .block) thenBranch ++
      sites true ((after (within .block (statement true thenBranch)) n).enter .block) elseBranch)
  | .forLoop _ start condition step body =>
    start.sites (n.enter .loop) ++
      ((condition.toList ++ step.toList).map (⟨.plain, after (loopStart start) (n.enter .loop), ·⟩) ++
        sites true ((after (loopStart start) (n.enter .loop)).inBody body) body)
  | .whileLoop _ condition body =>
    ⟨.plain, n.enter .loop, condition⟩ :: sites true ((n.enter .loop).inBody body) body
  | .doWhile _ body condition =>
    ⟨.plain, n.enter .loop, condition⟩ :: sites true ((n.enter .loop).inBody body) body
  | .switch _ selector _ body => ⟨.plain, n, selector⟩ :: sitesAll (n.enter .block) body
  | .label _ value => value.toList.map (⟨.plain, n, ·⟩)
  | .result _ value => value.toList.map (⟨.plain, n, ·⟩)
  | .jump .. => []
  | .empty _ => []

/-- The sites of several statements. -/
def sitesAll (n : Names) : List Stmt → List Site
  | [] => []
  | s :: ss => sites false n s ++ sitesAll (after (statement false s) n) ss

end

end Stmt

/-- The sites of parameters, behind parameters with the given names. -/
def parameterSites (n : Names) (before : List String) : List Parameter → List Site
  | [] => []
  | x :: xs => (lengthExprs x.array).map (⟨.parameter before, n, ·⟩) ++
      parameterSites n (before ++ x.name.toList) xs

namespace TopLevel

open Resolve

/-- The sites of a declaration at the top of a shader. -/
def sites (n : Names) : TopLevel → List Site
  | .precision .. | .layout .. => []
  | .globals d => d.sites n
  | .struct d => memberSites n d.members
  | .block b => memberSites n b.members ++
      (if b.instanceName.isSome then lengthExprs b.array else []).map
        (⟨.outline, n.withStruct b.name (b.members.map n.member), ·⟩)
  | .prototype p => p.parameters.flatMap fun x => (lengthExprs x.array).map (⟨.outline, n, ·⟩)
  | .function f => parameterSites n [] f.prototype.parameters ++ Stmt.sitesAll (functionNames n f) f.body

/-- The sites of several declarations. -/
def sitesAll (n : Names) : List TopLevel → List Site
  | [] => []
  | t :: ts => sites n t ++ sitesAll (after (topLevel t) n) ts

end TopLevel

namespace Shader

/-- All expressions that are resolved in a shader, with the names that are known there. -/
def sites (s : Shader) (limits : Limits) : List Site :=
  TopLevel.sitesAll (.ofBuiltins s.version limits) s.declarations

/-- What all variables and users' calls in a shader refer to. -/
def bindings (s : Shader) (limits : Limits) : List Binding :=
  siteBindings (s.sites limits)

end Shader

end GlslEs
