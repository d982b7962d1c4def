import GlslEs.Mangle.Walk
import GlslEs.Proofs.Resolve.Sites
import Mathlib.Data.List.Basic

/-!
# Expressions with new names

If every new name means, where the renamed expression stands, what the old one means where the
expression stands, then the renamed expression is settled there as the expression is here, has the same
constant value, and its names refer to the same declarations.

* `Expr.Carried`: the new name of a node means what the old one means.
* `Expr.settled_rename`, `Expr.eval?_rename`, `Expr.bindings_rename`: **what renaming keeps.**
-/

namespace GlslEs

/-! ### The renamed tree -/

/-- Without numbered symbols variables keep their names. -/
theorem Naming.variable_eq_self {ν : Naming} (hsymbols : ν.symbols = []) (scopes : LocalScopes) (x : String) :
    ν.variable_ scopes x = x := by
  unfold Naming.variable_
  rw [hsymbols]
  cases scopes.find? x <;> rfl

namespace Expr

variable (ν : Naming) (scopes : LocalScopes)

theorem renameAll_eq_map (es : List Expr) : renameAll ν scopes es = es.map (rename ν scopes) := by
  induction es with
  | nil => rfl
  | cons e es ih => rw [renameAll, ih, List.map_cons]

@[simp] theorem note_rename (e : Expr) : (e.rename ν scopes).note = e.note := by
  cases e <;> rfl

@[simp] theorem ty_rename (e : Expr) : (e.rename ν scopes).ty = e.ty :=
  congrArg Note.ty (note_rename ν scopes e)

@[simp] theorem qualifiers_rename (e : Expr) : (e.rename ν scopes).qualifiers = e.qualifiers :=
  congrArg Note.qualifiers (note_rename ν scopes e)

@[simp] theorem isConst_rename (e : Expr) : (e.rename ν scopes).isConst = e.isConst := by
  rw [isConst, isConst, qualifiers_rename]

theorem children_rename (e : Expr) :
    (e.rename ν scopes).children = e.children.map (rename ν scopes) := by
  cases e with
  | call note callee args => exact renameAll_eq_map ν scopes args
  | seq note exprs => exact renameAll_eq_map ν scopes exprs
  | _ => rfl

theorem nodes_rename (e : Expr) : (e.rename ν scopes).nodes = e.nodes.map (rename ν scopes) := by
  induction e using forall_of_children with
  | h e ih =>
    rw [nodes_eq_cons, nodes_eq_cons e, children_rename, List.map_cons, List.flatMap_map,
      List.map_flatMap, List.flatMap_congr ih]

variable {ν scopes}

/-- With names that stay as they are an expression stays as it is. -/
theorem rename_eq_self {e : Expr} (hvar : ∀ note x, .var note x ∈ e.nodes → ν.variable_ scopes x = x)
    (hcall : ∀ note f args, .call note (.user f) args ∈ e.nodes → ν.function f = f) :
    e.rename ν scopes = e := by
  induction e using forall_of_children with
  | h e ih =>
    have hsub : ∀ c ∈ e.children, c.rename ν scopes = c := by
      intro c hc
      have hnodes : ∀ x ∈ c.nodes, x ∈ e.nodes := fun x hx => by
        rw [nodes_eq_cons]
        exact List.mem_cons_of_mem _ (List.mem_flatMap.mpr ⟨c, hc, hx⟩)
      exact ih c hc (fun note x hx => hvar note x (hnodes _ hx)) fun note f args hx =>
        hcall note f args (hnodes _ hx)
    cases e with
    | lit note value => rfl
    | var note x => rw [rename, hvar note x (mem_nodes_self _)]
    | call note callee args =>
      have hcallee : ν.callee callee = callee := by
        cases callee with
        | user f => exact congrArg Callee.user (hcall note f args (mem_nodes_self _))
        | _ => rfl
      have hargs : args.map (rename ν scopes) = args := Resolve.map_eq_self_iff.mpr hsub
      rw [rename, hcallee, renameAll_eq_map, hargs]
    | seq note exprs =>
      have hexprs : exprs.map (rename ν scopes) = exprs := Resolve.map_eq_self_iff.mpr hsub
      rw [rename, renameAll_eq_map, hexprs]
    | _ =>
      simp only [children, List.mem_cons, List.not_mem_nil, or_false, forall_eq_or_imp,
        forall_eq] at hsub
      simp only [rename, hsub]

theorem rename_empty (scopes : LocalScopes) (e : Expr) : e.rename {} scopes = e :=
  rename_eq_self (fun _ x _ => Naming.variable_eq_self rfl scopes x) fun _ _ _ _ => rfl

end Expr

/-! ### Names that mean the same -/

/-- The name `y` means in `t'` what `x` means in `t`. -/
def SymbolTable.SameSymbol (t : SymbolTable) (x : String) (t' : SymbolTable) (y : String) : Prop :=
  ∃ k s, t.locate? x = some (k, s) ∧ t'.locate? y = some (k, { s with name := y })

/-- The functions named `g` are in `m` what those named `f` are in `n`. -/
structure Names.SameFunction (n : Names) (f : String) (m : Names) (g : String) : Prop where
  left : n.hasFunction f = true
  right : m.hasFunction g = true
  locate : ∀ types, m.locateFunction? g types =
    (n.locateFunction? f types).map fun (k, x) => (k, { x with name := g })

/-- The new name of a node means in `m` what the old one means in `n`. -/
def Expr.Carried (ν : Naming) (scopes : LocalScopes) (n m : Names) : Expr → Prop
  | .var _ x => n.symbols.SameSymbol x m.symbols (ν.variable_ scopes x)
  | .call _ (.user f) _ => n.SameFunction f m (ν.function f)
  | _ => True

/-- The types are the same. -/
structure Names.SameTypes (n m : Names) : Prop where
  version : m.version = n.version
  structs : m.structs = n.structs

namespace Expr

variable {f : Expr → Expr} {es : List Expr}

open Resolve

variable {n m : Names} {ν : Naming} {scopes : LocalScopes} {e : Expr}

theorem carried_children (h : ∀ x ∈ e.nodes, x.Carried ν scopes n m) :
    ∀ c ∈ e.children, ∀ x ∈ c.nodes, x.Carried ν scopes n m := (forall_mem_nodes.mp h).2

/-- In a settled expression every name is declared, so only names that are declared have to keep their
meaning. -/
theorem carried_of_settled (he : Settled expr n e)
    (hvar : ∀ note x s, .var note x ∈ e.nodes → n.symbols.find? x = some s →
      n.symbols.SameSymbol x m.symbols (ν.variable_ scopes x))
    (hcall : ∀ note f args, .call note (.user f) args ∈ e.nodes → n.hasFunction f = true →
      n.SameFunction f m (ν.function f)) : ∀ x ∈ e.nodes, x.Carried ν scopes n m := by
  intro x hx
  have hsettled := settled_nodes he hx
  cases x with
  | var note name =>
    obtain ⟨s, hs⟩ := declared_of_settled hsettled
    exact hvar note name s hx hs
  | call note callee args =>
    cases callee with
    | user f => exact hcall note f args hx (hasFunction_of_settled hsettled)
    | _ => trivial
  | _ => trivial

/-- A call with new names calls what the call calls. -/
theorem resolveCall_rename (htypes : n.SameTypes m) {callee : Callee}
    (h : ∀ f, callee = .user f → n.SameFunction f m (ν.function f)) (loc : Location) (args : List Expr) :
    m.resolveCall loc (ν.callee callee) (args.map (rename ν scopes)) =
      (ν.callee (n.resolveCall loc callee args).1, (n.resolveCall loc callee args).2) := by
  have hbuiltin : m.builtinNote = n.builtinNote := by
    unfold Names.builtinNote
    rw [htypes.version]
  have hty : (args.map (rename ν scopes)).map ty = args.map ty := by
    simp [Function.comp_def]
  have hconst : (args.map (rename ν scopes)).all isConst = args.all isConst := by
    simp [List.all_map, Function.comp_def]
  cases callee with
  | builtin name =>
    simp only [Naming.callee, Names.resolveCall, hty, hconst, hbuiltin, List.isEmpty_map]
  | constructor ty =>
    simp only [Naming.callee, Names.resolveCall, hconst, List.isEmpty_map, List.length_map]
  | user f =>
    have hresult : ((m.overloads (ν.function f)).find? (·.parameters == args.map ty)).map (·.result) =
        ((n.overloads f).find? (·.parameters == args.map ty)).map (·.result) := by
      rw [Names.find?_overloads, Names.find?_overloads, (h f rfl).locate]
      simp [Function.comp_def]
    simp only [Naming.callee, Names.resolveCall, (h f rfl).left, (h f rfl).right, if_true, hty, hresult]

/-- Resolving does not see new names that mean the same. -/
theorem resolve_rename (htypes : n.SameTypes m) (h : ∀ x ∈ e.nodes, x.Carried ν scopes n m) :
    (e.rename ν scopes).resolve m = (e.resolve n).rename ν scopes := by
  induction e using forall_of_children with
  | h e ih =>
    have hchild := fun c hc => ih c hc (carried_children h c hc)
    have hown : e.Carried ν scopes n m := h e (mem_nodes_self e)
    have hall : ∀ es : List Expr, (∀ c ∈ es, (c.rename ν scopes).resolve m = (c.resolve n).rename ν scopes) →
        resolveAll m (es.map (rename ν scopes)) = (resolveAll n es).map (rename ν scopes) := by
      intro es hes
      simp only [resolveAll_eq_map, List.map_map, Function.comp_def, List.map_congr_left hes]
    cases e with
    | lit note value => rfl
    | var note x =>
      obtain ⟨k, s, hs, hs'⟩ := hown
      simp only [rename, resolve, SymbolTable.find?_eq_locate?, hs, hs', Option.map_some]
    | call note callee args =>
      have hcallee : ∀ f, callee = .user f → n.SameFunction f m (ν.function f) := by
        rintro f rfl
        exact hown
      simp only [rename, resolve, hall args hchild, resolveCall_rename htypes hcallee, renameAll_eq_map]
    | seq note exprs =>
      simp [rename, resolve, hall exprs hchild, renameAll_eq_map, Function.comp_def]
    | field note base name =>
      have hfield : m.fieldType = n.fieldType := by
        unfold Names.fieldType Names.memberType?
        rw [htypes.structs]
      simp only [rename, resolve, hchild base (by simp [children]), ty_rename, qualifiers_rename, hfield]
      split <;> simp [rename, resolvedSwizzle]
    | _ =>
      simp only [children, List.mem_cons, List.not_mem_nil, or_false, forall_eq_or_imp,
        forall_eq] at hchild
      simp only [rename, resolve, resolvedSwizzle, hchild, ty_rename, isConst_rename, qualifiers_rename]

/-- **A renamed expression is settled where its names mean the same.** -/
theorem settled_rename (htypes : n.SameTypes m) (he : Settled expr n e)
    (h : ∀ x ∈ e.nodes, x.Carried ν scopes n m) : Settled expr m (e.rename ν scopes) := by
  rw [settled_expr, resolve_rename htypes h, (settled_expr.mp he).1, nameFindings_eq_nil, nodes_rename,
    List.forall_mem_map]
  refine ⟨rfl, fun x hx => ?_⟩
  have hown := h x hx
  cases x with
  | var note x =>
    obtain ⟨k, s, -, hs⟩ := hown
    exact ⟨_, by rw [SymbolTable.find?_eq_locate?, hs]; rfl⟩
  | call note callee args =>
    cases callee with
    | user f => exact .inl hown.right
    | _ => trivial
  | _ => trivial

theorem constant?_of_sameSymbol {x y : String} (h : n.symbols.SameSymbol x m.symbols y) :
    m.symbols.constant? y = n.symbols.constant? x := by
  obtain ⟨k, s, hs, hs'⟩ := h
  simp only [SymbolTable.constant?, SymbolTable.find?_eq_locate?, hs, hs', Option.map_some]
  rfl

theorem evalAll?_map {l l' : String → Option (List Constant)} (h : ∀ e ∈ es, (f e).eval? l' = e.eval? l) :
    evalAll? l' (es.map f) = evalAll? l es := by
  induction es with
  | nil => rfl
  | cons e es ih =>
    rw [List.map_cons, evalAll?, evalAll?, h e List.mem_cons_self,
      ih fun x hx => h x (List.mem_cons_of_mem _ hx)]

theorem evalLast?_map {l l' : String → Option (List Constant)} (h : ∀ e ∈ es, (f e).eval? l' = e.eval? l) :
    evalLast? l' (es.map f) = evalLast? l es := by
  induction es with
  | nil => rfl
  | cons e es ih =>
    cases es with
    | nil => exact h e List.mem_cons_self
    | cons e' es => exact ih fun x hx => h x (List.mem_cons_of_mem _ hx)

/-- **A renamed expression has the constant value of the expression.** -/
theorem eval?_rename (h : ∀ x ∈ e.nodes, x.Carried ν scopes n m) :
    (e.rename ν scopes).eval? m.symbols.constant? = e.eval? n.symbols.constant? := by
  induction e using forall_of_children with
  | h e ih =>
    have hchild := fun c hc => ih c hc (carried_children h c hc)
    have hown : e.Carried ν scopes n m := h e (mem_nodes_self e)
    cases e with
    | lit note value => rfl
    | var note x => exact constant?_of_sameSymbol hown
    | call note callee args =>
      cases callee with
      | constructor ty =>
        have hargs : evalAll? _ (args.map (rename ν scopes)) = evalAll? _ args := evalAll?_map hchild
        simp only [rename, Naming.callee, eval?, renameAll_eq_map, List.length_map, hargs]
      | _ => rfl
    | seq note exprs =>
      rw [rename, eval?, eval?, renameAll_eq_map]
      exact evalLast?_map hchild
    | field note base name | assign note op target value => rfl
    | _ =>
      simp only [children, List.mem_cons, List.not_mem_nil, or_false, forall_eq_or_imp,
        forall_eq] at hchild
      simp only [rename, eval?, ty_rename, hchild]

/-- **The names in a renamed expression refer to the same declarations.** -/
theorem bindings_rename (h : ∀ x ∈ e.nodes, x.Carried ν scopes n m) :
    (e.rename ν scopes).bindings m = e.bindings n := by
  have hown : ∀ x ∈ e.nodes, (x.rename ν scopes).ownBinding m = x.ownBinding n := by
    intro x hx
    have hcarried := h x hx
    cases x with
    | var note name =>
      obtain ⟨k, s, hs, hs'⟩ := hcarried
      simp only [rename, ownBinding, hs, hs', Option.map_some]
    | call note callee args =>
      cases callee with
      | user f =>
        have hty : (args.map (rename ν scopes)).map ty = args.map ty := by
          simp [Function.comp_def]
        simp only [rename, Naming.callee, ownBinding, renameAll_eq_map, hty, hcarried.locate,
          Option.map_map, Function.comp_def]
      | _ => rfl
    | _ => rfl
  unfold bindings
  rw [nodes_rename, List.filterMap_map]
  exact List.filterMap_congr hown

end Expr

/-! ### Array lengths -/

/-- An array length with new names. -/
def ArrayLength.rename (ν : Naming) (scopes : LocalScopes) : ArrayLength → ArrayLength
  | .sized e => .sized (e.rename ν scopes)
  | .unsized => .unsized

theorem ArrayLength.rename_empty (scopes : LocalScopes) (length : ArrayLength) :
    length.rename {} scopes = length := by
  cases length with
  | unsized => rfl
  | sized e => rw [rename, Expr.rename_empty]

section Lengths

open Resolve

variable {n m : Names} {ν : Naming} {scopes : LocalScopes} {array : Option ArrayLength}

theorem lengthExprs_rename :
    lengthExprs (array.map (·.rename ν scopes)) = (lengthExprs array).map (·.rename ν scopes) := by
  rcases array with - | - | - <;> rfl

/-- A renamed array length is settled and gives the array its type, and its names refer to the same
declarations. -/
theorem carries_length (htypes : n.SameTypes m) (hsettled : ∀ e ∈ lengthExprs array, Settled expr n e)
    (h : ∀ e ∈ lengthExprs array, ∀ x ∈ e.nodes, x.Carried ν scopes n m) :
    (∀ e ∈ lengthExprs (array.map (·.rename ν scopes)), Settled expr m e) ∧
      (∀ ty value, m.arrayedType ty value (array.map (·.rename ν scopes)) = n.arrayedType ty value array) ∧
      (lengthExprs (array.map (·.rename ν scopes))).flatMap (Expr.bindings m) =
        (lengthExprs array).flatMap (Expr.bindings n) := by
  refine ⟨?_, fun ty value => ?_, ?_⟩
  · rw [lengthExprs_rename, List.forall_mem_map]
    exact fun e he => Expr.settled_rename htypes (hsettled e he) (h e he)
  · rcases array with - | e | -
    · rfl
    · have he := hsettled e List.mem_cons_self
      have hcarried := h e List.mem_cons_self
      have hresolve := (settled_expr.mp he).1
      have hresolve' := (settled_expr.mp (Expr.settled_rename htypes he hcarried)).1
      simp only [Option.map_some, ArrayLength.rename, Names.arrayedType, ArrayLength.resolve, hresolve,
        hresolve', ArrayLength.size?, Expr.evalInt?, Expr.eval?_rename hcarried]
    · rfl
  · rw [lengthExprs_rename, List.flatMap_map]
    exact List.flatMap_congr fun e he => Expr.bindings_rename (h e he)

/-- Lengths that stay as they are, where names keep their meaning. -/
theorem carries_length_self (htypes : n.SameTypes m) (hsettled : ∀ e ∈ lengthExprs array, Settled expr n e)
    (h : ∀ e ∈ lengthExprs array, ∀ x ∈ e.nodes, x.Carried {} .empty n m) :
    (∀ e ∈ lengthExprs array, Settled expr m e) ∧
      (∀ ty value, m.arrayedType ty value array = n.arrayedType ty value array) ∧
      (lengthExprs array).flatMap (Expr.bindings m) = (lengthExprs array).flatMap (Expr.bindings n) := by
  have hsame : array.map (·.rename {} .empty) = array := by
    cases array with
    | none => rfl
    | some length => exact congrArg some (length.rename_empty .empty)
  have hcarries := carries_length htypes hsettled h
  rwa [hsame] at hcarries

/-- The array lengths of members stay as they are. -/
theorem carries_members (htypes : n.SameTypes m) {ms : List Member} (hms : Settled members n ms)
    (h : ∀ x ∈ ms, ∀ e ∈ lengthExprs x.array, ∀ y ∈ e.nodes, y.Carried {} .empty n m) :
    Settled members m ms ∧ siteBindings (memberSites m ms) = siteBindings (memberSites n ms) := by
  rw [settled_members] at hms ⊢
  constructor
  · intro x hx
    obtain ⟨hsettled, htype⟩ := settled_member.mp (hms x hx)
    obtain ⟨hlength, hsame, -⟩ := carries_length_self htypes hsettled (h x hx)
    exact settled_member.mpr ⟨hlength, (hsame _ _).trans htype⟩
  · unfold memberSites siteBindings
    rw [List.flatMap_assoc, List.flatMap_assoc]
    refine List.flatMap_congr fun x hx => ?_
    obtain ⟨hsettled, -⟩ := settled_member.mp (hms x hx)
    have hbindings := (carries_length_self htypes hsettled (h x hx)).2.2
    exact (siteBindings_map .outline m _).trans (hbindings.trans (siteBindings_map .outline n _).symm)

end Lengths

/-! ### Variables -/

/-- A variable with new names. -/
def Declarator.rename (ν : Naming) (scopes : LocalScopes) (new : String) (d : Declarator) : Declarator :=
  { d with
    array := d.array.map (·.rename ν scopes)
    value := d.value.map (·.rename ν scopes)
    name := new }

/-- Settled expressions keep their meaning under new names. -/
structure Names.Carries (n : Names) (ν : Naming) (scopes : LocalScopes) (m : Names) : Prop where
  types : n.SameTypes m
  carried : ∀ {e : Expr}, Resolve.Settled Resolve.expr n e → ∀ x ∈ e.nodes, x.Carried ν scopes n m

namespace Names.Carries

open Resolve

variable {n m : Names} {ν : Naming} {scopes : LocalScopes}

/-- A renamed expression. -/
theorem expr (h : n.Carries ν scopes m) {e : Expr} (he : Settled expr n e) :
    Settled Resolve.expr m (e.rename ν scopes) ∧ (e.rename ν scopes).bindings m = e.bindings n :=
  ⟨Expr.settled_rename h.types he (h.carried he), Expr.bindings_rename (h.carried he)⟩

/-- A renamed expression that may be missing. -/
theorem option (h : n.Carries ν scopes m) {e : Option Expr} (he : ∀ x ∈ e, Settled Resolve.expr n x) :
    (∀ x ∈ e.map (·.rename ν scopes), Settled Resolve.expr m x) ∧
      (e.map (·.rename ν scopes)).toList.flatMap (Expr.bindings m) = e.toList.flatMap (Expr.bindings n) := by
  cases e with
  | none => exact ⟨fun x hx => (by cases hx), rfl⟩
  | some e =>
    obtain ⟨hsettled, hbindings⟩ := h.expr (he e rfl)
    exact ⟨fun x hx => Option.some.inj hx ▸ hsettled, by simpa using hbindings⟩

/-- A variable with new names, if its own new name is free. -/
theorem declarator (h : n.Carries ν scopes m) {q : TypeQualifiers} {ty : Ty} {d : Declarator}
    (hd : Settled (Resolve.declarator q ty) n d) {new : String}
    (haccepts : m.accepts { n.symbolOf q d with name := new } = true) :
    Settled (Resolve.declarator q ty) m (d.rename ν scopes new) ∧
      siteBindings ((d.rename ν scopes new).sites m) = siteBindings (d.sites n) ∧
      after (Resolve.declarator q ty (d.rename ν scopes new)) m =
        m.insert { n.symbolOf q d with name := new } := by
  obtain ⟨hvalue, hlength, htype, -⟩ := settled_declarator.mp hd
  obtain ⟨hvalue', hbindings⟩ := h.option hvalue
  obtain ⟨hlength', htype', hbindings'⟩ := carries_length h.types hlength fun e he => h.carried (hlength e he)
  have hsymbol : m.symbolOf q (d.rename ν scopes new) = { n.symbolOf q d with name := new } := by
    have hconstant : (d.value.map (·.rename ν scopes)).bind (·.eval? m.symbols.constant?) =
        d.value.bind (·.eval? n.symbols.constant?) := by
      cases hv : d.value with
      | none => rfl
      | some e => exact Expr.eval?_rename (h.carried (hvalue e hv))
    simp only [symbolOf, Declarator.rename, hconstant]
  have hsettled : Settled (Resolve.declarator q ty) m (d.rename ν scopes new) := by
    have htypes : (d.value.map (·.rename ν scopes)).map Expr.ty = d.value.map Expr.ty := by
      cases d.value <;> simp
    rw [settled_declarator, hsymbol]
    refine ⟨hvalue', hlength', ?_, haccepts⟩
    rw [Declarator.rename, htypes, htype']
    exact htype
  refine ⟨hsettled, ?_, ?_⟩
  · simp only [Declarator.sites, siteBindings_append, siteBindings_map, Declarator.rename]
    rw [hbindings, hbindings']
  · rw [after_declarator hsettled, hsymbol]

end Names.Carries

end GlslEs
