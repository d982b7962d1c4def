import GlslEs.Proofs.Check.Sites
import GlslEs.Proofs.Reading.Lexer
import GlslEs.Proofs.Resolve.Sites
import Mathlib.Data.List.Basic

/-!
# Loops around expressions

Checking knows the counters of the loops around an expression by their names, and the functions and
structures of the shader.

* `Shader.loopSites`: the expressions of a shader with the counters of the loops around them.
* `TopLevel.exprs`: the expressions in function bodies and in the values of global variables.
* `Context.Counts`: what checking knows of counters and tables.
* `Names.Tracks`: what the symbol table knows of counters.
-/

namespace GlslEs

/-- The counter of a loop around an expression: its declaration in the head of the loop, and the names
that have been declared since and are known at the expression, the last one first. -/
structure Counter where
  declarator : Declarator
  since : List String

/-- The counter behind the declaration of a name. -/
def Counter.behind (name : String) (k : Counter) : Counter := { k with since := name :: k.since }

/-- An expression with the counters of the loops in whose bodies it stands, the innermost one first. -/
structure LoopSite where
  counters : List Counter
  expr : Expr

/-- Counters behind declared variables. -/
def Counter.afterAll (ks : List Counter) (xs : List Declarator) : List Counter :=
  xs.foldl (fun ks x => ks.map (·.behind x.name)) ks

/-- The values of declared variables, each behind the variables before it. -/
def declaratorLoopSites (ks : List Counter) : List Declarator → List LoopSite
  | [] => []
  | x :: xs => x.value.toList.map (⟨ks, ·⟩) ++ declaratorLoopSites (ks.map (·.behind x.name)) xs

namespace LoopStart

/-- The variables that the first part of a loop head declares. -/
def declarators : LoopStart → List Declarator
  | .decl _ d => d.declarators
  | _ => []

/-- The expressions of the first part of a loop head. -/
def loopSites (ks : List Counter) : LoopStart → List LoopSite
  | .expr _ e => [⟨ks, e⟩]
  | .decl _ d => declaratorLoopSites ks d.declarators
  | _ => []

/-- The counters in the body of a loop: those behind its head, and its own one if it counts. -/
def counters (start : LoopStart) (counter : Except InductionProblem String) (ks : List Counter) :
    List Counter :=
  (if counter.isOk then start.declarators.map (⟨·, []⟩) else []) ++ Counter.afterAll ks start.declarators

end LoopStart

namespace Stmt

/-- Counters behind a statement. -/
def countersAfter (ks : List Counter) : Stmt → List Counter
  | .decl _ d => Counter.afterAll ks d.declarators
  | _ => ks

mutual

/-- The expressions of a statement with the counters around them; loops are judged by the heads of
functions that are given. -/
def loopSites (functions : List Prototype) (ks : List Counter) : Stmt → List LoopSite
  | .expr _ e => [⟨ks, e⟩]
  | .decl _ d => declaratorLoopSites ks d.declarators
  | .block _ body => loopSitesAll functions ks body
  | .ifThen _ condition thenBranch => ⟨ks, condition⟩ :: loopSites functions ks thenBranch
  | .ifElse _ condition thenBranch elseBranch =>
    ⟨ks, condition⟩ :: (loopSites functions ks thenBranch ++ loopSites functions ks elseBranch)
  | .forLoop _ start condition step body =>
    start.loopSites ks ++
      (condition.toList ++ step.toList).map (⟨Counter.afterAll ks start.declarators, ·⟩) ++
      loopSites functions (start.counters (loopCounter functions start condition step body) ks) body
  | .whileLoop _ condition body => ⟨ks, condition⟩ :: loopSites functions ks body
  | .doWhile _ body condition => ⟨ks, condition⟩ :: loopSites functions ks body
  | .switch _ selector _ body => ⟨ks, selector⟩ :: loopSitesAll functions ks body
  | .label _ value => value.toList.map (⟨ks, ·⟩)
  | .result _ value => value.toList.map (⟨ks, ·⟩)
  | .jump .. => []
  | .empty _ => []

/-- The expressions of several statements with the counters around them. -/
def loopSitesAll (functions : List Prototype) (ks : List Counter) : List Stmt → List LoopSite
  | [] => []
  | s :: ss => loopSites functions ks s ++ loopSitesAll functions (s.countersAfter ks) ss

end

end Stmt

/-- The expressions of a declaration at the top of a shader. -/
def TopLevel.loopSites (functions : List Prototype) : TopLevel → List LoopSite
  | .globals d => declaratorLoopSites [] d.declarators
  | .function f => Stmt.loopSitesAll functions [] f.body
  | _ => []

/-- The expressions of a shader with the counters of the loops around them. -/
def Shader.loopSites (s : Shader) : List LoopSite :=
  s.declarations.flatMap (TopLevel.loopSites s.prototypes)

/-! ### The expressions -/

theorem map_expr_declaratorLoopSites (ks : List Counter) (xs : List Declarator) :
    (declaratorLoopSites ks xs).map (·.expr) = xs.filterMap (·.value) := by
  induction xs generalizing ks with
  | nil => rfl
  | cons x xs ih =>
    rw [declaratorLoopSites, List.map_append, ih, List.filterMap_cons]
    cases x.value <;> rfl

theorem Stmt.map_expr_loopSitesAll {functions : List Prototype} {ss : List Stmt}
    (h : ∀ s ∈ ss, ∀ ks, (s.loopSites functions ks).map (·.expr) = s.exprs) (ks : List Counter) :
    (loopSitesAll functions ks ss).map (·.expr) = exprsAll ss := by
  induction ss generalizing ks with
  | nil => rfl
  | cons s ss ih =>
    rw [loopSitesAll, exprsAll, List.map_append, h s List.mem_cons_self,
      ih fun t ht => h t (List.mem_cons_of_mem s ht)]

theorem Stmt.map_expr_loopSites (functions : List Prototype) (s : Stmt) (ks : List Counter) :
    (s.loopSites functions ks).map (·.expr) = s.exprs := by
  induction s generalizing ks with
  | decl loc d => exact map_expr_declaratorLoopSites ks d.declarators
  | block loc body ih => exact map_expr_loopSitesAll ih ks
  | forLoop loc start condition step body ih =>
    have hstart : (start.loopSites ks).map (·.expr) = start.exprs := by
      cases start with
      | decl loc d => exact map_expr_declaratorLoopSites ks d.declarators
      | _ => rfl
    simp [loopSites, exprs, hstart, ih, Function.comp_def]
  | switch loc selector bodyLoc body ih =>
    rw [loopSites, List.map_cons, map_expr_loopSitesAll ih, exprs]
  | _ => simp [loopSites, exprs, Function.comp_def, *]

theorem TopLevel.map_expr_loopSites (functions : List Prototype) (d : TopLevel) :
    (d.loopSites functions).map (·.expr) = d.exprs := by
  cases d with
  | globals d => exact map_expr_declaratorLoopSites [] d.declarators
  | function f => exact Stmt.map_expr_loopSitesAll (fun s _ => s.map_expr_loopSites functions) []
  | _ => rfl

/-! ### What checking knows -/

theorem LoopStart.of_counter {start : LoopStart} {name : String} (h : start.counter = .ok name) :
    ∃ x, start.declarators = [x] ∧ x.name = name := by
  unfold LoopStart.counter at h
  split at h
  · cases h
  · rename_i loc d
    split at h
    · rename_i x hx
      split at h
      · cases h
      · split at h
        · cases h
          exact ⟨x, hx, rfl⟩
        · cases h
    · cases h
  · cases h

/-- The counter of a loop is declared in its head, and nothing in its body is seen to change it. -/
theorem of_loopCounter {functions : List Prototype} {start : LoopStart} {condition step : Option Expr}
    {body : Stmt} {counter : String} (h : loopCounter functions start condition step body = .ok counter) :
    start.counter = .ok counter ∧ ∀ x ∈ body.nodes, x.changes functions counter = false := by
  unfold loopCounter at h
  obtain ⟨c, hstart, h⟩ := Except.bind_eq_ok_iff.mp h
  dsimp only at h
  -- Every check that fails ends in an error.
  split at h
  · cases h
  · split at h
    · cases h
    · split at h
      · cases h
      · split at h
        · cases h
        · split at h
          · cases h
          · rename_i hchanges
            cases h
            exact ⟨hstart, by simpa using hchanges⟩

/-- The context knows the tables of another one, and counters by their names. -/
structure Context.Counts (c c₀ : Context) (ks : List Counter) : Prop where
  functions : c.functions = c₀.functions
  structs : c.structs = c₀.structs
  counters : c.counters = ks.map (·.declarator.name)

namespace Context.Counts

variable {c c₀ : Context} {ks : List Counter}

theorem enter (h : c.Counts c₀ ks) : c.enter.Counts c₀ ks := ⟨h.functions, h.structs, h.counters⟩

theorem behind (h : c.Counts c₀ ks) (name : String) (value : Option (List Constant)) :
    (c.declare name value).Counts c₀ (ks.map (·.behind name)) := by
  refine ⟨h.functions, h.structs, h.counters.trans ?_⟩
  rw [List.map_map]
  rfl

theorem parameters (h : c.Counts c₀ []) (xs : List Parameter) : (c.afterParameters xs).Counts c₀ [] := by
  unfold afterParameters
  induction xs generalizing c with
  | nil => exact h
  | cons x xs ih =>
    refine ih ?_
    dsimp only
    cases x.name with
    | none => exact h
    | some name => exact h.behind name none

end Context.Counts

/-! ### What resolving knows -/

namespace Names

/-- The symbol of a counter is there, behind those that have been declared since. -/
def Holds (n : Names) (k : Counter) : Prop :=
  ∃ newer s older, n.symbols.symbols = newer ++ s :: older ∧ newer.map (·.name) = k.since ∧
    s.name = k.declarator.name ∧ s.loc = k.declarator.loc

/-- The symbol of a variable is the last one that has been declared. -/
def Newest (n : Names) (x : Declarator) : Prop :=
  ∃ s older, n.symbols.symbols = s :: older ∧ s.name = x.name ∧ s.loc = x.loc

/-- The symbols of counters are there, the innermost one first. -/
structure Tracks (n : Names) (ks : List Counter) : Prop where
  holds : ∀ k ∈ ks, n.Holds k
  order : ks.Pairwise fun a b => a.since.length < b.since.length

namespace Tracks

variable {n m : Names} {ks : List Counter} {name : String}

theorem nil (n : Names) : n.Tracks [] := ⟨by simp, .nil⟩

theorem of_symbols (h : n.Tracks ks) (hsymbols : m.symbols.symbols = n.symbols.symbols) : m.Tracks ks :=
  ⟨fun k hk => by rw [Holds, hsymbols]; exact h.holds k hk, h.order⟩

theorem enter (h : n.Tracks ks) (kind : ScopeKind) : (n.enter kind).Tracks ks :=
  h.of_symbols (n.symbols.symbols_enter kind)

theorem symbols_insert (t : SymbolTable) (s : Symbol) : (t.insert s).symbols = s :: t.symbols := by
  unfold SymbolTable.insert SymbolTable.symbols
  split
  · rename_i hframes
    simp [hframes]
  · rename_i frame frames hframes
    simp [hframes]

/-- A declaration comes between all counters and what follows. -/
theorem insert (h : n.Tracks ks) (s : Symbol) : (n.insert s).Tracks (ks.map (·.behind s.name)) := by
  refine ⟨fun k hk => ?_, ?_⟩
  · obtain ⟨k, hmem, rfl⟩ := List.mem_map.mp hk
    obtain ⟨newer, x, older, hsymbols, hnames, hx⟩ := h.holds k hmem
    refine ⟨s :: newer, x, older, ?_, ?_, hx⟩
    · rw [Names.insert, symbols_insert, hsymbols, List.cons_append]
    · rw [List.map_cons, hnames]
      rfl
  · rw [List.pairwise_map]
    exact h.order.imp fun hlt => Nat.succ_lt_succ hlt

/-- A counter whose symbol is the newest one. -/
theorem push (h : n.Tracks (ks.map (·.behind name))) {x : Declarator} (hx : n.Newest x) :
    n.Tracks (⟨x, []⟩ :: ks.map (·.behind name)) := by
  refine ⟨fun k hk => ?_, List.pairwise_cons.mpr ⟨fun k hk => ?_, h.order⟩⟩
  · rcases List.mem_cons.mp hk with rfl | hk
    · obtain ⟨s, older, hsymbols, hs⟩ := hx
      exact ⟨[], s, older, hsymbols, rfl, hs⟩
    · exact h.holds k hk
  · obtain ⟨k, -, rfl⟩ := List.mem_map.mp hk
    exact Nat.succ_pos _

end Tracks

end Names

end GlslEs
