import GlslEs.Shader

/-!
# Call graphs

Which functions a function calls.  All functions of one name are one node, and a call of a name
without a body is no edge.

`CallGraph.search` goes through the graph depth first, from every function in the order of the
names.  A function that is met again while it is still being looked at calls itself; every
other one gets the length of the longest chain of calls that starts with it.
-/

namespace GlslEs

/-- The names that each function calls, in the order of their first calls; the functions are in
the order of their names. -/
abbrev CallGraph := List (String × List String)

/-- How far the search has come with a function. -/
inductive Visit where
  | active
  | done (depth : Nat)
deriving DecidableEq, Repr

/-- The state of the search. -/
structure CallSearch where
  visits : List (String × Visit) := []
  recursive : List String := []
deriving Repr

namespace CallSearch

/-- Notes how far the search has come with a function. -/
def mark (s : CallSearch) (name : String) (v : Visit) : CallSearch :=
  { s with visits := (name, v) :: s.visits }

def markRecursive (s : CallSearch) (name : String) : CallSearch :=
  { s with recursive := if s.recursive.contains name then s.recursive else name :: s.recursive }

/-- The length of the longest chain of calls that starts with a function. -/
def depth? (s : CallSearch) (name : String) : Option Nat :=
  match s.visits.lookup name with
  | some (.done depth) => some depth
  | _ => none

end CallSearch

namespace CallGraph

def defines (g : CallGraph) (name : String) : Bool :=
  (g.lookup name).isSome

def callees (g : CallGraph) (name : String) : List String :=
  ((g.lookup name).getD []).filter g.defines

/-- Looks at a function and at what it calls, and gives the length of the longest chain of calls
that starts with it.  The first argument bounds the length of a chain. -/
def visit (g : CallGraph) : Nat → String → CallSearch → Nat × CallSearch
  | 0, _, s => (0, s)
  | room + 1, name, s =>
    match s.visits.lookup name with
    | some (.done depth) => (depth, s)
    | some .active => (0, s.markRecursive name)
    | none =>
      let (deepest, s) := (g.callees name).foldl
        (fun (deepest, s) callee =>
          let (depth, s) := visit g room callee s
          (max deepest depth, s))
        (0, s.mark name .active)
      (deepest + 1, s.mark name (.done (deepest + 1)))

/-- The search from every function; no chain without repetition is longer than the graph. -/
def search (g : CallGraph) : CallSearch :=
  g.foldl (fun s f => (g.visit (g.length + 1) f.1 s).2) {}

/-- The functions that call themselves, in the order of their names. -/
def recursive (g : CallGraph) : List String :=
  g.search.recursive.mergeSort fun a b => decide (a ≤ b)

end CallGraph

def Expr.userCallee? : Expr → Option String
  | .call _ (.user name) _ => some name
  | _ => none

/-- The user's functions that a function calls, in order. -/
def Function.calls (f : Function) : List String :=
  (f.body.flatMap Stmt.nodes).filterMap Expr.userCallee?

def CallGraph.ofFunctions (fs : List Function) : CallGraph :=
  let names := (fs.map (·.prototype.name)).eraseDups.mergeSort fun a b => decide (a ≤ b)
  names.map fun name =>
    (name, ((fs.filter (·.prototype.name == name)).flatMap Function.calls).eraseDups)

end GlslEs
