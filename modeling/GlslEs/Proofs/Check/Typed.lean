import GlslEs.Proofs.Check.Survey

/-!
# Which shaders have types throughout

Resolving gives the type `error` to what no rule covers and leaves the report to checking, which knows
functions and arrays in its own way.  So where checking is silent, an expression may still lack a type, for
one of two reasons: it uses an array of interface blocks whose length is not checked, or it calls a function
that is announced further down.

* `Expr.isUnsized`, `Expr.isEarlyCall`: the two reasons, at one node.
* `Expr.Stands.explained`: there are no others.
* `Shader.Accepted.typed_iff_sized`: the expressions of an accepted shader all have types exactly when no array
  of interface blocks without a usable length is named and no function is called before the head that fits.
* `Shader.exists_accepted_not_typed`: both happen, and array lengths, which are not checked, may lack types too.
-/

namespace GlslEs

/-! ### The two reasons -/

namespace Expr

variable {e : Expr} {all : List Prototype}

open Resolve

/-- A variable without a type that is one of the given ones. -/
def isUnsized (unsized : List String) : Expr → Bool
  | .var note name => note.ty.isError && unsized.contains name
  | _ => false

/-- A call of a function that one of the heads in `all` announces, but none in `heads`. -/
def isEarlyCall (heads all : List Prototype) : Expr → Bool
  | .call _ (.user name) args =>
    announced all name (args.map ty) && !announced heads name (args.map ty)
  | _ => false

/-- The nodes of an expression have types exactly when no node gives a reason to lack one. -/
def Explained (unsized : List String) (heads all : List Prototype) (e : Expr) : Prop :=
  (∀ x ∈ e.nodes, x.ty.isError = false) ↔
    ∀ x ∈ e.nodes, x.isUnsized unsized = false ∧ x.isEarlyCall heads all = false

variable {unsized : List String} {heads : List Prototype} {n : Names} {c : Context}

/-- A call has a type unless it calls a function that is announced further down. -/
theorem call_known (hn : n.Sound unsized heads) (hheads : ∀ p ∈ heads, p ∈ c.functions) {note : Note}
    {callee : Callee} {args : List Expr} (he : Settled expr n (.call note callee args)) (hcallee : callee.Worded)
    (hargs : ∀ a ∈ args, a.ty.isError = false) (hsilent : Silent (c.checkCall callee args note.loc))
    (hearly : (Expr.call note callee args).isEarlyCall heads c.functions = false) : note.ty.isError = false := by
  have hany : args.any (·.ty.isError) = false := by simpa using hargs
  have hnote : (n.resolveCall note.loc callee args).2 = note := by rw [resolveCall_of_settled he]
  rw [← hnote]
  simp only [Context.checkCall, hany, Bool.false_eq_true, if_false] at hsilent
  cases callee with
  | constructor ty =>
    have hty : ty.isError = false := Ty.known_of_wordlike hcallee
    simp only [Names.resolveCall]
    split <;> exact hty
  | builtin name => exact builtinNote_known hsilent
  | user name =>
    have hfunction := hasFunction_of_settled he
    simp only [Names.resolveCall, if_pos hfunction]
    cases hannounced : announced heads name (args.map ty) with
    | true =>
      obtain ⟨f, hf, hresult⟩ := hn.overload? hannounced
      simpa [hf] using hresult
    | false =>
      -- Then no head at all announces the function, and the check reports the call.
      have hall : announced c.functions name (args.map ty) = false := by
        simpa [isEarlyCall, hannounced] using hearly
      obtain ⟨p, hp, hname⟩ := hn.exists_head hfunction
      exact absurd hname (forall_name_ne_of_silent hsilent hall p (hheads p hp))

/-- Where all operands have types and the check is silent, an expression has a type unless it gives one of the
two reasons. -/
theorem known_of_settled (hn : n.Sound unsized heads) (hheads : ∀ p ∈ heads, p ∈ c.functions)
    (he : Settled expr n e) (hworded : e.NodeWorded) (hchildren : ∀ x ∈ e.children, x.ty.isError = false)
    (hsilent : Silent (c.checkExpr e)) (hunsized : e.isUnsized unsized = false)
    (hearly : e.isEarlyCall heads c.functions = false) : e.ty.isError = false := by
  have hty : (e.resolve n).ty = e.ty := by rw [(settled_expr.mp he).1]
  have hoperand {x : Expr} (hx : x ∈ e.children) : x.resolve n = x := (settled_expr.mp (settled_children he hx)).1
  cases e with
  | lit note value =>
    rw [← hty]
    exact value.ty_known
  | var note name =>
    obtain ⟨s, hs⟩ := declared_of_settled he
    have hnote : s.ty = note.ty := by
      rw [resolve, hs] at hty
      exact hty
    cases herror : s.ty.isError with
    | false => exact (congrArg Ty.isError hnote).symm.trans herror
    | true =>
      rw [isUnsized, ← hnote, herror, List.contains_iff_mem.mpr (hn.find? hs herror).1] at hunsized
      cases hunsized
  | unary | binary | ternary | swizzle | field => exact ty_known_of_silent rfl hchildren hsilent
  | assign note op target value =>
    rw [← hty, show (resolve n (.assign note op target value)).ty = (target.resolve n).ty from rfl,
      hoperand (by simp [children])]
    exact hchildren target (by simp [children])
  | call note callee args =>
    simp only [Context.checkExpr, Silent.append_iff] at hsilent
    exact call_known hn hheads he hworded hchildren hsilent.2 hearly
  | index note base position =>
    simp only [children, List.mem_cons, List.not_mem_nil, or_false, forall_eq_or_imp, forall_eq] at hchildren
    simp only [Context.checkExpr, Context.checkIndex, hchildren, Bool.or_self, Bool.false_eq_true, if_false,
      Silent.append_iff] at hsilent
    rw [← hty, show (resolve n (.index note base position)).ty = (base.resolve n).ty.indexed?.getD .error from rfl,
      hoperand (by simp [children])]
    have hindex := hsilent.2
    split at hindex
    · exact absurd hindex (Silent.not_singleton rfl rfl)
    · rename_i bound hbound
      exact Ty.indexed?_known hchildren.1 hbound
  | seq note exprs =>
    have hexprs : resolveAll n exprs = exprs := by
      rw [resolveAll_eq_map]
      exact map_eq_self_iff.mpr fun x hx => hoperand hx
    rw [← hty, show (resolve n (.seq note exprs)).ty = ((resolveAll n exprs).getLast?.map ty).getD .error from rfl,
      hexprs]
    exact last_known hworded hchildren

/-- A call of a function that is announced further down has no type. -/
theorem isError_of_isEarlyCall (hn : n.Sound unsized heads) (he : Settled expr n e)
    (h : e.isEarlyCall heads all = true) : e.ty.isError = true := by
  unfold isEarlyCall at h
  split at h
  · rename_i note name args
    simp only [Bool.and_eq_true, Bool.not_eq_true'] at h
    have hnote : (n.resolveCall note.loc (.user name) args).2 = note := by rw [resolveCall_of_settled he]
    show note.ty.isError = true
    rw [← hnote]
    simp only [Names.resolveCall, if_pos (hasFunction_of_settled he), hn.overload?_eq_none h.2]
    rfl
  · cases h

theorem isError_of_isUnsized (h : e.isUnsized unsized = true) : e.ty.isError = true := by
  cases e with
  | var note name => exact (Bool.and_eq_true_iff.mp h).1
  | _ => cases h

/-- The expression is settled where names are sound, and checked silently where all functions are known. -/
def Stands (unsized : List String) (heads all : List Prototype) (e : Expr) : Prop :=
  ∃ (n : Names) (c : Context), n.Sound unsized heads ∧ (∀ p ∈ heads, p ∈ all) ∧ c.functions = all ∧
    Settled expr n e ∧ e.Worded ∧ Silent (c.checkExpr e)

/-- **An expression that is settled where names are sound, and checked silently, lacks types only for one of
the two reasons.** -/
theorem Stands.explained (h : e.Stands unsized heads all) : e.Explained unsized heads all := by
  obtain ⟨n, c, hn, hheads, rfl, he, hworded, hsilent⟩ := h
  constructor
  · intro hknown x hx
    have hty := Bool.eq_false_iff.mp (hknown x hx)
    exact ⟨Bool.eq_false_iff.mpr fun h => hty (isError_of_isUnsized h),
      Bool.eq_false_iff.mpr fun h => hty (isError_of_isEarlyCall hn (settled_nodes he hx) h)⟩
  · intro hreasons
    induction e using Expr.forall_of_children with
    | h e ih =>
      obtain ⟨hnode, hwords⟩ := worded_iff.mp hworded
      obtain ⟨hreason, hreasons⟩ := forall_mem_nodes.mp hreasons
      have hchildren : ∀ x ∈ e.children, ∀ y ∈ x.nodes, y.ty.isError = false := fun x hx =>
        ih x hx (settled_children he hx) (hwords x hx) (Context.silent_children hsilent x hx) (hreasons x hx)
      have hty := known_of_settled hn hheads he hnode (fun x hx => hchildren x hx x (mem_nodes_self x)) hsilent
        hreason.1 hreason.2
      exact forall_mem_nodes.mpr ⟨hty, hchildren⟩

end Expr

/-! ### Functions that are announced -/

namespace Resolve

/-- Marking a function as defined changes neither its name, its parameters nor its result. -/
theorem mem_markDefined {name : String} {parameters : List Ty} {fs : List FunctionSymbol}
    {f : FunctionSymbol} (h : f ∈ markDefined name parameters fs) :
    ∃ g ∈ fs, f.result = g.result := by
  obtain ⟨g, hg, rfl⟩ := List.mem_map.mp h
  refine ⟨g, hg, ?_⟩
  split <;> rfl

theorem any_markDefined (name : String) (parameters : List Ty) (fs : List FunctionSymbol)
    (other : String) (types : List Ty) :
    (markDefined name parameters fs).any (fun f => f.name == other && f.parameters == types) =
      fs.any fun f => f.name == other && f.parameters == types := by
  rw [markDefined, List.any_map]
  congr 1
  funext f
  simp only [Function.comp_apply]
  split <;> rfl

end Resolve

namespace Names

variable {unsized : List String} {heads : List Prototype} {n : Names} {p : Prototype}

/-- A head that was announced before adds nothing. -/
theorem hasOverload_or_announces {existing : FunctionSymbol}
    (h : (n.overloads p.name).find? (·.parameters == p.parameterTypes) = some existing)
    (name : String) (types : List Ty) :
    n.hasOverload name types = (n.hasOverload name types || p.announces name types) := by
  cases hp : p.announces name types with
  | false => rw [Bool.or_false]
  | true =>
    obtain ⟨hname, htypes⟩ := Bool.and_eq_true_iff.mp hp
    obtain ⟨hmem, hexisting⟩ := List.mem_filter.mp (List.mem_of_find?_eq_some h)
    have hparameters := List.find?_some h
    rw [Bool.or_true, Names.hasOverload, List.any_eq_true]
    exact ⟨existing, hmem, by simp_all⟩

theorem hasOverload_withFunction (n : Names) (p : Prototype) (defining : Bool) (name : String) (types : List Ty) :
    (n.withFunction p defining).hasOverload name types =
      (n.hasOverload name types || p.announces name types) := by
  unfold withFunction
  split
  · rename_i existing hexisting
    rw [← hasOverload_or_announces hexisting]
    split
    · exact Resolve.any_markDefined ..
    · rfl
  · simp [hasOverload, Prototype.announces]

theorem result_withFunction {defining : Bool} {f : FunctionSymbol} (h : f ∈ (n.withFunction p defining).functions) :
    (∃ g ∈ n.functions, f.result = g.result) ∨ f.result = p.result := by
  unfold withFunction at h
  split at h
  · split at h
    · exact .inl (Resolve.mem_markDefined h)
    · exact .inl ⟨f, h, rfl⟩
  · rcases List.mem_append.mp h with h | h
    · exact .inl ⟨f, h, rfl⟩
    · rw [List.mem_singleton.mp h]
      exact .inr rfl

/-- A head announces one more function. -/
theorem Sound.withFunction (hn : n.Sound unsized heads) (hresult : p.result.isError = false) (defining : Bool) :
    (n.withFunction p defining).Sound unsized (heads ++ [p]) where
  symbols := by
    have hsymbols : (n.withFunction p defining).symbols = n.symbols := by
      unfold Names.withFunction
      repeat' split
      all_goals rfl
    rw [hsymbols]
    exact hn.symbols
  results f hf := by
    rcases result_withFunction hf with ⟨g, hg, hfg⟩ | hfp
    · exact hfg ▸ hn.results g hg
    · exact hfp ▸ hresult
  overloads name types := by
    rw [hasOverload_withFunction, hn.overloads, announced, announced, List.any_append]
    simp

/-- At the start only built-in variables are known, and they have types. -/
theorem sound_ofBuiltins (unsized : List String) (version : Version) (limits : Limits) :
    (ofBuiltins version limits).Sound unsized [] := by
  refine ⟨forall_symbols_ofBuiltins version fun x hx herror => ?_, by simp [ofBuiltins], fun _ _ => rfl⟩
  have hknown : x.ty.isError = false := by
    simp only [Builtin.allVariables, Builtin.stageVariables, List.mem_append, List.mem_map,
      List.mem_cons, List.not_mem_nil, or_false] at hx
    rcases hx with (hx | ⟨⟨name, b, since⟩, -, rfl⟩) | rfl
    · rcases hx with rfl | rfl | rfl | rfl | rfl | rfl | rfl | rfl | rfl | rfl | rfl | rfl | rfl |
        rfl | rfl | rfl | rfl | rfl | rfl | rfl <;> rfl
    · rfl
    · rfl
  rw [show x.ty.isError = true from herror] at hknown
  cases hknown

end Names

/-! ### Declarations -/

namespace Resolve

variable {unsized : List String} {heads all : List Prototype} {n : Names} {c : Context}

/-- The functions after a declaration at the top are those announced up to it. -/
theorem sound_topLevel {d : TopLevel} (hn : n.Sound unsized heads) (h : Settled topLevel n d)
    (hread : d.Worded false Expr.IsRead) (htop : SurveyedTop unsized n d) :
    (after (topLevel d) n).Sound unsized (heads ++ d.head?.toList) := by
  have headed {p : Prototype} {defining : Bool} (hp : Settled (prototype · defining) n p)
      (hresult : Lexer.Wordlike false p.result.baseName)
      (hfunctions : (after (topLevel d) n).functions = (after (prototype p defining) n).functions) :
      (after (topLevel d) n).Sound unsized (heads ++ [p]) := by
    have haccepts := findings_declareFunction.mp (settled_prototype.mp hp).2
    refine (hn.withFunction (Ty.known_of_wordlike hresult) defining).of_functions ?_ htop.symbols
    rw [hfunctions, after_prototype hp, after_declareFunction haccepts]
  cases d with
  | prototype p => exact headed (settled_top_prototype.mp h) hread.result rfl
  | function f =>
    exact headed (settled_function.mp (settled_top_function.mp h)).1 hread.1.result (functions_after_function f)
  | _ =>
    simp only [TopLevel.head?, Option.toList_none, List.append_nil]
    exact hn.of_functions (htop.functions rfl) htop.symbols

/-- The expressions of declarations one after the other, with the heads up to each known. -/
theorem stands_topLevels {ds : List TopLevel} (hn : n.Sound unsized heads)
    (h : Settled (List.mapM topLevel) n ds) (hsilent : Silent (c.checkTopLevels ds))
    (hread : ∀ d ∈ ds, d.Worded false Expr.IsRead)
    (hexprs : ∀ d ∈ ds, ∀ e ∈ d.exprs, ∃ c : Context, c.functions = all ∧ Silent (c.checkExpr e))
    (hheads : ∀ p ∈ heads ++ ds.filterMap TopLevel.head?, p ∈ all)
    (hblocks : ∀ name ∈ ds.filterMap TopLevel.blockArray?, name ∈ unsized)
    (before : List TopLevel) (d : TopLevel) (rest : List TopLevel) (hsplit : ds = before ++ d :: rest) :
    ∀ e ∈ d.exprs, e.Stands unsized (heads ++ (before ++ [d]).filterMap TopLevel.head?) all := by
  induction ds generalizing n c heads before with
  | nil => cases before <;> cases hsplit
  | cons d' ds ih =>
    obtain ⟨hd, hds⟩ := settled_mapM_cons.mp h
    obtain ⟨hcheck, hlater⟩ := Silent.append_iff.mp hsilent
    obtain ⟨hown, hothers⟩ := List.forall_mem_cons.mp hread
    obtain ⟨hfirst, hexprs⟩ := List.forall_mem_cons.mp hexprs
    rw [filterMap_cons_eq_append] at hheads hblocks
    obtain ⟨hblock, hblocks⟩ := List.forall_mem_append.mp hblocks
    have htop := surveyed_topLevel hn.symbols hd hcheck hown fun name hname =>
      hblock name (Option.mem_toList.mpr hname)
    have hn' := sound_topLevel hn hd hown htop
    rw [← List.append_assoc] at hheads
    cases before with
    | nil =>
      obtain ⟨rfl, rfl⟩ := List.cons.inj hsplit
      intro e he
      obtain ⟨m, hm, hsettled⟩ := htop.surveyed e he
      obtain ⟨c, rfl, hsilent⟩ := hfirst e he
      rw [List.nil_append, filterMap_cons_eq_append, List.filterMap_nil, List.append_nil]
      exact ⟨m, c, hn'.of_functions hm.functions hm.symbols, fun p hp => hheads p (List.mem_append_left _ hp),
        rfl, hsettled, (TopLevel.Worded.exprs hown e he).worded, hsilent⟩
    | cons y before =>
      obtain ⟨rfl, rfl⟩ := List.cons.inj hsplit
      rw [List.cons_append, filterMap_cons_eq_append, ← List.append_assoc]
      exact ih hn' hds hlater hothers hexprs hheads hblocks before rfl

end Resolve

/-- The expression between the brackets of an array. -/
def ArrayLength.expr? : ArrayLength → Option Expr
  | .sized length => some length
  | .unsized => none

/-- The array lengths in a declaration. -/
def Declaration.lengths (d : Declaration) : List Expr :=
  (d.array.toList ++ (d.struct.elim [] (·.members)).filterMap (·.array) ++
    d.declarators.filterMap (·.array)).filterMap ArrayLength.expr?

/-- The array lengths in the first part of a loop head. -/
def LoopStart.lengths : LoopStart → List Expr
  | .decl _ d => d.lengths
  | _ => []

namespace Stmt

mutual

/-- The array lengths in a statement and in the statements below it. -/
def lengths : Stmt → List Expr
  | .decl _ d => d.lengths
  | .block _ body => lengthsAll body
  | .ifThen _ _ thenBranch => lengths thenBranch
  | .ifElse _ _ thenBranch elseBranch => lengths thenBranch ++ lengths elseBranch
  | .forLoop _ start _ _ body => start.lengths ++ lengths body
  | .whileLoop _ _ body => lengths body
  | .doWhile _ body _ => lengths body
  | .switch _ _ _ body => lengthsAll body
  | .expr .. | .label .. | .result .. | .jump .. | .empty _ => []

/-- The array lengths in several statements. -/
def lengthsAll : List Stmt → List Expr
  | [] => []
  | s :: ss => lengths s ++ lengthsAll ss

end

end Stmt

/-- The array lengths in the body of a function. -/
def TopLevel.lengths : TopLevel → List Expr
  | .function f => Stmt.lengthsAll f.body
  | _ => []

namespace Shader

variable {source : String} {stage : Stage} {limits : Limits} {s : Shader} {ds : List Diagnostic}

/-- The names of the arrays of interface blocks. -/
def blockArrays (s : Shader) : List String := s.declarations.filterMap TopLevel.blockArray?

/-- Nothing is reported about the names of an accepted shader, for such a report would be an error. -/
theorem Accepted.parse_eq (h : s.Accepted source stage limits) : parse source limits = .ok (s, []) := by
  obtain ⟨ds, hparse, -⟩ := h.parsed
  have hresolve := resolve_of_parse hparse
  rw [h.resolve_eq] at hresolve
  rw [hparse, (Prod.mk.inj hresolve).2]

theorem Accepted.silent (h : s.Accepted source stage limits) :
    Silent ((Context.ofShader s stage limits).checkTopLevels s.declarations) := by
  have hsilent := Silent.of_check h.checked
  simp only [findings, Silent.append_iff] at hsilent
  exact hsilent.1.1.1.1.2

/-- The expressions of an accepted shader are checked silently, with all its functions known. -/
theorem Accepted.silent_exprs (h : s.Accepted source stage limits) :
    ∀ d ∈ s.declarations, ∀ e ∈ d.exprs, ∃ c : Context, c.functions = s.prototypes ∧ Silent (c.checkExpr e) := by
  intro d hd e he
  obtain ⟨x, -, hconsistent, hsilent⟩ := h.exists_stop hd he
  exact ⟨x.context, hconsistent.counts.functions, hsilent⟩

/-- The expressions of an accepted shader stand where names are sound. -/
theorem Accepted.stands (h : s.Accepted source stage limits) (before : List TopLevel) (d : TopLevel)
    (after : List TopLevel) (hsplit : s.declarations = before ++ d :: after) :
    ∀ e ∈ d.exprs,
      e.Stands s.blockArrays ((before ++ [d]).filterMap TopLevel.head?) s.prototypes :=
  Resolve.stands_topLevels (Names.sound_ofBuiltins _ _ _) (settled_of_parse h.parse_eq) h.silent
    (read_of_parse h.parse_eq) h.silent_exprs (fun _ hp => hp) (fun _ hname => hname) before d after hsplit

/-- All expressions that are checked, in function bodies and in the values of global variables, have types. -/
def Typed (s : Shader) : Prop :=
  ∀ d ∈ s.declarations, ∀ e ∈ d.exprs, ∀ x ∈ e.nodes, x.ty.isError = false

instance (s : Shader) : Decidable s.Typed := by
  unfold Typed
  infer_instance

/-- No expression names an array of interface blocks that has no usable length. -/
def BlockArraysSized (s : Shader) : Prop :=
  ∀ d ∈ s.declarations, ∀ e ∈ d.exprs, ∀ x ∈ e.nodes, x.isUnsized s.blockArrays = false

/-- Where a call fits the head of some function, it fits one that stands up to there. -/
def CallsFollowHeads (s : Shader) : Prop :=
  ∀ before d after, s.declarations = before ++ d :: after → ∀ e ∈ d.exprs, ∀ x ∈ e.nodes,
    x.isEarlyCall ((before ++ [d]).filterMap TopLevel.head?) s.prototypes = false

/-- **What may lack a type although no error is reported**: arrays of interface blocks, and calls before the head
that fits. -/
theorem Accepted.typed_iff_sized (h : s.Accepted source stage limits) :
    s.Typed ↔ s.BlockArraysSized ∧ s.CallsFollowHeads := by
  constructor
  · intro htyped
    have hreasons : ∀ before d after, s.declarations = before ++ d :: after → ∀ e ∈ d.exprs,
        ∀ x ∈ e.nodes, x.isUnsized s.blockArrays = false ∧
          x.isEarlyCall ((before ++ [d]).filterMap TopLevel.head?) s.prototypes = false := by
      intro before d after hsplit e he
      have hd : d ∈ s.declarations := by simp [hsplit]
      exact (h.stands before d after hsplit e he).explained.mp (htyped d hd e he)
    refine ⟨fun d hd e he x hx => ?_, fun before d after hsplit e he x hx => ?_⟩
    · obtain ⟨before, after, hsplit⟩ := List.append_of_mem hd
      exact (hreasons before d after hsplit e he x hx).1
    · exact (hreasons before d after hsplit e he x hx).2
  · rintro ⟨hsized, hcalls⟩ d hd e he
    obtain ⟨before, after, hsplit⟩ := List.append_of_mem hd
    exact (h.stands before d after hsplit e he).explained.mpr fun x hx =>
      ⟨hsized d hd e he x hx, hcalls before d after hsplit e he x hx⟩

theorem Accepted.typed_iff_sized_overloads : ∃ s : Shader, s.Accepted
    "void f();void f(int);void main()\x7bf(1);\x7d" .fragment .standard ∧
      (s.Typed ↔ s.BlockArraysSized ∧ s.CallsFollowHeads) := by
  refine (exists_accepted (P := fun _ => true) ?_).imp fun s h => ⟨h.1, h.1.typed_iff_sized⟩
  decide +kernel

theorem not_typed (h : s.declarations.any (·.exprs.any (·.ty.isError)) = true) : ¬ s.Typed := by
  simp only [List.any_eq_true] at h
  obtain ⟨d, hd, e, he, herror⟩ := h
  intro htyped
  have := htyped d hd e he e e.mem_nodes_self
  simp [this] at herror

/-- An array of blocks of length zero, a call that stands before the head that fits, and a length with an operand
that is not evaluated. -/
theorem exists_accepted_not_typed :
    (∃ s : Shader, s.Accepted
      "#version 300 es\nuniform B\x7bint a;\x7db[0];void main()\x7bb;\x7d" .fragment .standard ∧
      ¬ s.Typed) ∧
    (∃ s : Shader, s.Accepted
      "void f();void main()\x7bf(1);\x7dvoid f(int);" .fragment .standard ∧ ¬ s.Typed) ∧
    ∃ s : Shader, s.Accepted "void main()\x7bint a[true?2:1+true];\x7d" .fragment .standard ∧ s.Typed ∧
      ∃ d ∈ s.declarations, ∃ e ∈ d.lengths, ∃ x ∈ e.nodes, x.ty.isError = true := by
  refine ⟨?_, ?_, ?_⟩
  · refine (exists_accepted (P := (·.declarations.any (·.exprs.any (·.ty.isError)))) ?_).imp
      fun s h => ⟨h.1, not_typed h.2⟩
    decide +kernel
  · refine (exists_accepted (P := (·.declarations.any (·.exprs.any (·.ty.isError)))) ?_).imp
      fun s h => ⟨h.1, not_typed h.2⟩
    decide +kernel
  · refine (exists_accepted (P := fun s => decide (s.Typed ∧
      ∃ d ∈ s.declarations, ∃ e ∈ d.lengths, ∃ x ∈ e.nodes, x.ty.isError = true)) ?_).imp
      fun s h => ⟨h.1, of_decide_eq_true h.2⟩
    decide +kernel

end Shader

end GlslEs
