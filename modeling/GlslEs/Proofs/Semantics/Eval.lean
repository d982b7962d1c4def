import GlslEs.Proofs.Semantics.Place
import GlslEs.Proofs.Tree

/-!
# Evaluation

Expressions are evaluated from left to right and pass a store along.  An assignment finds its
target, and reads it where it is joined with an operator, before it evaluates its right side.
Calls of functions are arbitrary steps from stores to stores; what the language leaves undefined
has no result.

* `Environment`: the types of variables, structures and functions.
* `Environment.Typed`: every node of an expression carries the type that the rules give.
* `Machine`: a carrier of floating-point numbers and the meaning of functions.
* `Machine.eval`: the value of an expression and the store after it.
* `Machine.Sequenced.eval`: an expression whose nodes are within a class of computations is evaluated within
  it.
-/

namespace GlslEs

/-! ### Typed expressions -/

/-- What a function gives, and which of its arguments it may write to. -/
structure CallType where
  result : Ty
  outputs : List Bool
deriving DecidableEq, Repr

/-- The types of variables, structures and functions. -/
structure Environment where
  typeOf? : String → Option Ty
  structs : List (String × MemberTypes)
  callType? : Callee → List Ty → Option CallType

/-- Whether an expression names a part of a variable. -/
def Expr.isPlace (e : Expr) : Bool := e.rootVariable?.isSome

/-- Whether every argument that a function may write to names a part of a variable. -/
def Expr.arePlaces : List Bool → List Expr → Bool
  | _, [] => true
  | outputs, e :: es => (!outputs.headD false || e.isPlace) && arePlaces outputs.tail es

/-- Whether an assignment takes a value of a type. -/
def AssignOp.takes (op : AssignOp) (target value : Ty) : Bool :=
  match op with
  | .plain => target == value
  | .joined op => BinaryOp.joins (.arith op) target value

namespace Environment

/-- A call of a function carries the type of its result, and names places where the function may
write. -/
def FitsCall (Γ : Environment) (note : Note) (callee : Callee) (args : List Expr) : Prop :=
  ∃ s, Γ.callType? callee (args.map Expr.ty) = some s ∧ note.ty = s.result ∧
    Expr.arePlaces s.outputs args = true

instance decidableFitsCall (Γ : Environment) (note : Note) (callee : Callee) (args : List Expr) :
    Decidable (Γ.FitsCall note callee args) :=
  match h : Γ.callType? callee (args.map Expr.ty) with
  | none => isFalse fun ⟨s, hs, _⟩ => by rw [h] at hs; cases hs
  | some s =>
    decidable_of_iff (note.ty = s.result ∧ Expr.arePlaces s.outputs args = true)
      ⟨fun hs => ⟨s, h, hs⟩, fun ⟨s', hs', hs⟩ => by rw [h] at hs'; cases hs'; exact hs⟩

/-- A node carries the type that the rules give for its operands. -/
def Fits (Γ : Environment) : Expr → Prop
  | .lit note value => note.ty = value.ty
  | .var note name => Γ.typeOf? name = some note.ty
  | .unary note op operand =>
    op.result? operand.ty = some note.ty ∧ (op.isIncrement = true → operand.isPlace = true)
  | .binary note op left right => op.result? left.ty right.ty = some note.ty
  | .assign note op target value =>
    note.ty = target.ty ∧ target.isPlace = true ∧ op.takes target.ty value.ty = true
  | .ternary note condition ifTrue ifFalse =>
    condition.ty = .bool ∧ ifTrue.ty = note.ty ∧ ifFalse.ty = note.ty
  | .call note (.constructor ty) args =>
    note.ty = ty ∧ 0 < ty.components ∧
      ty.constructorProblem? (args.map Expr.ty) (Value.memberTypes Γ.structs ty) = none
  | .call note callee args => Γ.FitsCall note callee args
  | .swizzle note base _ components => components ≠ [] ∧ base.ty.swizzled components = note.ty
  | .field note base name => memberType? Γ.structs base.ty name = some note.ty
  | .index note base position =>
    base.ty.indexed? = some note.ty ∧ position.ty.isInteger = true ∧ position.ty.isScalar = true
  | .seq note exprs => exprs.getLast?.map Expr.ty = some note.ty

instance decidableFits (Γ : Environment) : (e : Expr) → Decidable (Γ.Fits e)
  | .lit .. => inferInstanceAs (Decidable (_ = _))
  | .var .. => inferInstanceAs (Decidable (_ = _))
  | .unary .. => inferInstanceAs (Decidable (_ ∧ (_ → _)))
  | .binary .. => inferInstanceAs (Decidable (_ = _))
  | .assign .. => inferInstanceAs (Decidable (_ ∧ _ ∧ _))
  | .ternary .. => inferInstanceAs (Decidable (_ ∧ _ ∧ _))
  | .call _ (.constructor _) _ => inferInstanceAs (Decidable (_ ∧ _ ∧ _))
  | .call note (.builtin name) args => decidableFitsCall Γ note (.builtin name) args
  | .call note (.user name) args => decidableFitsCall Γ note (.user name) args
  | .swizzle .. => inferInstanceAs (Decidable (_ ≠ _ ∧ _))
  | .field .. => inferInstanceAs (Decidable (_ = _))
  | .index .. => inferInstanceAs (Decidable (_ ∧ _ ∧ _))
  | .seq .. => inferInstanceAs (Decidable (_ = _))

/-- Every node of an expression has a type, the one that the rules give for its operands. -/
def Typed (Γ : Environment) (e : Expr) : Prop :=
  ∀ x ∈ e.nodes, x.ty.isError = false ∧ Γ.Fits x

instance (Γ : Environment) (e : Expr) : Decidable (Γ.Typed e) :=
  inferInstanceAs (Decidable (∀ x ∈ e.nodes, _))

end Environment

/-! ### Stores -/

/-- What the variables hold. -/
abbrev Store (F : Type) := String → Value F

/-- A part of a variable. -/
structure Place where
  root : String
  path : List Selector
deriving DecidableEq, Repr

/-- The part of a part. -/
def Place.part (p : Place) (s : Selector) : Place := ⟨p.root, p.path ++ [s]⟩

/-- What a function gets for a parameter: a value, or the place that it may write to. -/
inductive Argument (F : Type) where
  | value (v : Value F)
  | place (p : Place)

namespace Environment

variable {F : Type}

/-- Every variable holds a value of its type. -/
def StoreTyped (Γ : Environment) (σ : Store F) : Prop :=
  ∀ x t, Γ.typeOf? x = some t → (σ x).HasType Γ.structs t

/-- A place for values of a type. -/
def PlaceTyped (Γ : Environment) (p : Place) (t : Ty) : Prop :=
  ∃ r, Γ.typeOf? p.root = some r ∧ pathType? Γ.structs r p.path = some t

/-- An argument of a type. -/
def ArgumentTyped (Γ : Environment) : Argument F → Ty → Prop
  | .value v, t => v.HasType Γ.structs t
  | .place p, t => Γ.PlaceTyped p t

end Environment

/-- A carrier of floating-point numbers, and for every function a step from stores to stores that
respects types. -/
structure Machine (F : Type) (Γ : Environment) where
  floats : FloatArith F
  call : Callee → List Ty → List (Argument F) → Store F → Option (Value F × Store F)
  call_typed : ∀ {callee types s args σ v σ'}, Γ.callType? callee types = some s →
    List.Forall₂ Γ.ArgumentTyped args types → Γ.StoreTyped σ →
    call callee types args σ = some (v, σ') →
    v.HasType Γ.structs s.result ∧ Γ.StoreTyped σ'

/-! ### Evaluation -/

/-- Computations that pass a store along. -/
abbrev Eval (F α : Type) := StateT (Store F) Option α

namespace Eval

variable {F α : Type}

/-- A result that does not depend on the store. -/
def ofOption (a : Option α) : Eval F α := fun σ => a.map fun a => (a, σ)

/-- What a place holds. -/
def read (p : Place) : Eval F (Value F) := fun σ =>
  (Value.read? p.path (σ p.root)).map fun v => (v, σ)

/-- Puts a value into a place. -/
def write (p : Place) (v : Value F) : Eval F Unit := fun σ =>
  (Value.write? v p.path (σ p.root)).map fun w => ((), fun x => if x = p.root then w else σ x)

end Eval

namespace Value

variable {F : Type}

/-- The truth value that a value is. -/
def truth? : Value F → Option Bool
  | .data [.bool b] => some b
  | _ => none

/-- The index that a value is. -/
def index? : Value F → Option Nat
  | .data [.int n] => if 0 ≤ n.toInt then some n.toInt.toNat else none
  | .data [.uint n] => some n.toNat
  | _ => none

/-- A value one step further, or one step back. -/
def step? (f : FloatArith F) (op : UnaryOp) : Value F → Option (Value F)
  | .data cs =>
    let op := match op with
      | .preDecrement | .postDecrement => ArithOp.sub
      | _ => .add
    (cs.mapM fun c => Datum.arith? f op c (.one f c.scalar)).map .data
  | _ => none

end Value

namespace Machine

variable {F : Type} {Γ : Environment}

/-- Moves what a place holds one step. -/
def increment (m : Machine F Γ) (op : UnaryOp) (p : Place) : Eval F (Value F) := do
  let old ← Eval.read p
  let new ← Eval.ofOption (old.step? m.floats op)
  Eval.write p new
  return if op.isTrailing then old else new

/-- An operation on two values of some types. -/
def operate (m : Machine F Γ) (op : BinaryOp) (left right : Ty) (v w : Value F) :
    Option (Value F) :=
  match op with
  | .arith op => v.arith? m.floats op left right w
  | .compare op => v.compare? m.floats op w
  | .logic op => do return .data [.bool (Datum.logic op (← v.truth?) (← w.truth?))]

/-- What decides the result of an operation before its right operand is evaluated. -/
def shortcut? (op : BinaryOp) (v : Value F) : Option (Value F) :=
  match op, v with
  | .logic .and, .data [.bool false] => some v
  | .logic .or, .data [.bool true] => some v
  | _, _ => none

mutual

/-- The value of an expression. -/
def eval (m : Machine F Γ) : Expr → Eval F (Value F)
  | .lit _ value => pure (.data [.ofConstant m.floats value])
  | .var _ name => Eval.read ⟨name, []⟩
  | .unary _ op operand =>
    if op.isIncrement then do
      m.increment op (← evalPlace m operand)
    else do
      Eval.ofOption ((← eval m operand).unary? m.floats op)
  | .binary _ op left right => do
    let v ← eval m left
    match shortcut? op v with
    | some v => return v
    | none => Eval.ofOption (m.operate op left.ty right.ty v (← eval m right))
  | .assign _ .plain target value => do
    let p ← evalPlace m target
    let v ← eval m value
    Eval.write p v
    return v
  | .assign _ (.joined op) target value => do
    let p ← evalPlace m target
    let old ← Eval.read p
    let v ← Eval.ofOption (m.operate (.arith op) target.ty value.ty old (← eval m value))
    Eval.write p v
    return v
  | .ternary _ condition ifTrue ifFalse => do
    if ← Eval.ofOption (← eval m condition).truth? then eval m ifTrue else eval m ifFalse
  | .call _ (.constructor ty) args => do
    let vs ← evalAll m args
    Eval.ofOption (Value.construct? m.floats Γ.structs ty ((args.map Expr.ty).zip vs))
  | .call _ callee args => do
    match Γ.callType? callee (args.map Expr.ty) with
    | none => Eval.ofOption none
    | some s =>
      let vs ← evalArguments m s.outputs args
      m.call callee (args.map Expr.ty) vs
  | .swizzle _ base _ components => do
    Eval.ofOption ((← eval m base).select? (.parts components))
  | .field _ base name => do
    Eval.ofOption ((← eval m base).select? (.member name))
  | .index _ base position => do
    let v ← eval m base
    let i ← Eval.ofOption (← eval m position).index?
    Eval.ofOption ((Selector.ofIndex? base.ty i).bind fun s => v.select? s)
  | .seq _ exprs => do
    Eval.ofOption (← evalAll m exprs).getLast?

/-- The place that an expression names. -/
def evalPlace (m : Machine F Γ) : Expr → Eval F Place
  | .var _ name => return ⟨name, []⟩
  | .swizzle _ base _ components => do
    return (← evalPlace m base).part (.parts components)
  | .field _ base name => do
    return (← evalPlace m base).part (.member name)
  | .index _ base position => do
    let p ← evalPlace m base
    let i ← Eval.ofOption (← eval m position).index?
    let s ← Eval.ofOption (Selector.ofIndex? base.ty i)
    return p.part s
  | _ => Eval.ofOption none

/-- The values of several expressions. -/
def evalAll (m : Machine F Γ) : List Expr → Eval F (List (Value F))
  | [] => return []
  | e :: es => do
    let v ← eval m e
    let vs ← evalAll m es
    return v :: vs

/-- The arguments that a function gets. -/
def evalArguments (m : Machine F Γ) : List Bool → List Expr → Eval F (List (Argument F))
  | _, [] => return []
  | outputs, e :: es => do
    let a ← (if outputs.headD false then .place <$> evalPlace m e else .value <$> eval m e :
      Eval F (Argument F))
    let as ← evalArguments m outputs.tail es
    return a :: as

end

/-! ### Equations -/

section Equations

variable {m : Machine F Γ} {note : Note} {a b c : Expr} {es : List Expr} {name : String} {set : SwizzleSet}
  {ks : List Nat} {outputs : List Bool}

theorem eval_lit {value : Constant} :
    m.eval (.lit note value) = pure (.data [.ofConstant m.floats value]) := rfl

theorem eval_var : m.eval (.var note name) = Eval.read ⟨name, []⟩ := rfl

theorem eval_unary {op : UnaryOp} :
    m.eval (.unary note op a) =
      if op.isIncrement then m.evalPlace a >>= m.increment op
      else m.eval a >>= fun v => Eval.ofOption (v.unary? m.floats op) := rfl

theorem eval_binary {op : BinaryOp} :
    m.eval (.binary note op a b) =
      m.eval a >>= fun v =>
        match shortcut? op v with
        | some v => pure v
        | none => m.eval b >>= fun w => Eval.ofOption (m.operate op a.ty b.ty v w) := rfl

theorem eval_assign_plain :
    m.eval (.assign note .plain a b) =
      m.evalPlace a >>= fun p => m.eval b >>= fun v =>
        Eval.write p v >>= fun _ => pure v := rfl

theorem eval_assign_joined {op : ArithOp} :
    m.eval (.assign note (.joined op) a b) =
      m.evalPlace a >>= fun p => Eval.read p >>= fun old => m.eval b >>= fun w =>
        Eval.ofOption (m.operate (.arith op) a.ty b.ty old w) >>= fun v =>
          Eval.write p v >>= fun _ => pure v := rfl

theorem eval_ternary :
    m.eval (.ternary note c a b) =
      m.eval c >>= fun v => Eval.ofOption v.truth? >>= fun t =>
        if t then m.eval a else m.eval b := rfl

theorem eval_constructor {ty : Ty} :
    m.eval (.call note (.constructor ty) es) =
      m.evalAll es >>= fun vs =>
        Eval.ofOption (Value.construct? m.floats Γ.structs ty ((es.map Expr.ty).zip vs)) := rfl

theorem eval_call {callee : Callee} (h : ∀ ty, callee ≠ .constructor ty) {s : CallType}
    (hs : Γ.callType? callee (es.map Expr.ty) = some s) :
    m.eval (.call note callee es) =
      m.evalArguments s.outputs es >>= m.call callee (es.map Expr.ty) := by
  have hcall : m.eval (.call note callee es) =
      match Γ.callType? callee (es.map Expr.ty) with
      | none => Eval.ofOption none
      | some s => m.evalArguments s.outputs es >>= m.call callee (es.map Expr.ty) := by
    cases callee with
    | constructor ty => exact (h ty rfl).elim
    | builtin name | user name => rfl
  rw [hcall, hs]

theorem eval_swizzle :
    m.eval (.swizzle note a set ks) =
      m.eval a >>= fun v => Eval.ofOption (v.select? (.parts ks)) := rfl

theorem eval_field :
    m.eval (.field note a name) =
      m.eval a >>= fun v => Eval.ofOption (v.select? (.member name)) := rfl

theorem eval_index :
    m.eval (.index note a b) =
      m.eval a >>= fun v => m.eval b >>= fun w => Eval.ofOption w.index? >>= fun i =>
        Eval.ofOption ((Selector.ofIndex? a.ty i).bind fun s => v.select? s) := rfl

theorem eval_seq :
    m.eval (.seq note es) = m.evalAll es >>= fun vs => Eval.ofOption vs.getLast? := rfl

theorem evalPlace_var : m.evalPlace (.var note name) = pure ⟨name, []⟩ := rfl

theorem evalPlace_swizzle :
    m.evalPlace (.swizzle note a set ks) =
      m.evalPlace a >>= fun p => pure (p.part (.parts ks)) := rfl

theorem evalPlace_field :
    m.evalPlace (.field note a name) =
      m.evalPlace a >>= fun p => pure (p.part (.member name)) := rfl

theorem evalPlace_index :
    m.evalPlace (.index note a b) =
      m.evalPlace a >>= fun p => m.eval b >>= fun w => Eval.ofOption w.index? >>= fun i =>
        Eval.ofOption (Selector.ofIndex? a.ty i) >>= fun s => pure (p.part s) := rfl

theorem evalAll_nil : m.evalAll [] = pure [] := rfl

theorem evalAll_cons :
    m.evalAll (a :: es) = m.eval a >>= fun v => m.evalAll es >>= fun vs => pure (v :: vs) := rfl

theorem evalArguments_nil : m.evalArguments outputs [] = pure [] := rfl

theorem evalArguments_cons :
    m.evalArguments outputs (a :: es) =
      (if outputs.headD false then .place <$> m.evalPlace a else .value <$> m.eval a) >>= fun x =>
        m.evalArguments outputs.tail es >>= fun xs => pure (x :: xs) := rfl

end Equations

/-! ### Classes of computations -/

/-- A class of computations that holds all results and is closed under sequencing. -/
structure Sequenced (Q : ∀ {α : Type}, Eval F α → Prop) : Prop where
  ofOption : ∀ {α : Type} (a : Option α), Q (Eval.ofOption a)
  bind : ∀ {α β : Type} {x : Eval F α} {f : α → Eval F β}, Q x → (∀ a, Q (f a)) → Q (x >>= f)

/-- A node reads a variable or calls a built-in function within a class of computations, and writes to
nothing by itself. -/
def Within (m : Machine F Γ) (Q : ∀ {α : Type}, Eval F α → Prop) : Expr → Prop
  | .var _ name => Q (Eval.read (F := F) ⟨name, []⟩)
  | .unary _ op _ => op.isIncrement = false
  | .assign .. | .call _ (.user _) _ => False
  | .call _ (.builtin name) args => ∀ vs, Q (m.call (.builtin name) (args.map Expr.ty) vs)
  | _ => True

section Within

variable {m : Machine F Γ} {Q : ∀ {α : Type}, Eval F α → Prop} {es : List Expr}

theorem Sequenced.pure (hQ : Sequenced @Q) {α : Type} (a : α) : Q (Pure.pure a) := hQ.ofOption (some a)

theorem Sequenced.map (hQ : Sequenced @Q) {α β : Type} {x : Eval F α} {f : α → β} (hx : Q x) : Q (f <$> x) := by
  rw [map_eq_pure_bind]
  exact hQ.bind hx fun a => hQ.pure _

theorem Sequenced.evalAll (hQ : Sequenced @Q) (h : ∀ e ∈ es, Q (m.eval e)) : Q (m.evalAll es) := by
  induction es with
  | nil => exact hQ.pure _
  | cons e es ih =>
    rw [evalAll_cons]
    exact hQ.bind (h e (by simp)) fun v => hQ.bind (ih fun x hx => h x (by simp [hx])) fun vs => hQ.pure _

theorem Sequenced.evalArguments (hQ : Sequenced @Q) (outputs : List Bool)
    (h : ∀ e ∈ es, Q (m.eval e) ∧ Q (m.evalPlace e)) : Q (m.evalArguments outputs es) := by
  induction es generalizing outputs with
  | nil => exact hQ.pure _
  | cons e es ih =>
    rw [evalArguments_cons]
    refine hQ.bind ?_ fun v => hQ.bind (ih outputs.tail fun x hx => h x (by simp [hx])) fun vs => hQ.pure _
    split
    · exact hQ.map (h e (by simp)).2
    · exact hQ.map (h e (by simp)).1

/-- **An expression whose nodes are within a class of computations is evaluated within it**, and so is
found as a place. -/
theorem Sequenced.eval (hQ : Sequenced @Q) {e : Expr} (h : ∀ x ∈ e.nodes, m.Within Q x) :
    Q (m.eval e) ∧ Q (m.evalPlace e) := by
  induction e using Expr.forall_of_children with
  | h e ih =>
    obtain ⟨hself, hchildren⟩ := Expr.forall_mem_nodes.mp h
    have ih : ∀ c ∈ e.children, Q (m.eval c) ∧ Q (m.evalPlace c) := fun c hc => ih c hc (hchildren c hc)
    -- Only selections name places; all other expressions have none.
    have hnone : Q (Eval.ofOption none : Eval F Place) := hQ.ofOption none
    cases e with
    | lit note value => exact ⟨hQ.pure _, hnone⟩
    | var note name => exact ⟨hself, hQ.pure _⟩
    | unary note op a =>
      refine ⟨?_, hnone⟩
      rw [eval_unary, if_neg (by simp [show op.isIncrement = false from hself])]
      exact hQ.bind (ih a (by simp [Expr.children])).1 fun v => hQ.ofOption _
    | binary note op a b =>
      refine ⟨?_, hnone⟩
      rw [eval_binary]
      refine hQ.bind (ih a (by simp [Expr.children])).1 fun v => ?_
      split
      · exact hQ.pure _
      · exact hQ.bind (ih b (by simp [Expr.children])).1 fun w => hQ.ofOption _
    | assign note op a b => exact hself.elim
    | ternary note c a b =>
      refine ⟨?_, hnone⟩
      rw [eval_ternary]
      refine hQ.bind (ih c (by simp [Expr.children])).1 fun v => hQ.bind (hQ.ofOption _) fun t => ?_
      split
      · exact (ih a (by simp [Expr.children])).1
      · exact (ih b (by simp [Expr.children])).1
    | call note callee args =>
      refine ⟨?_, hnone⟩
      cases callee with
      | user name => exact hself.elim
      | constructor ty =>
        rw [eval_constructor]
        exact hQ.bind (hQ.evalAll fun a ha => (ih a ha).1) fun vs => hQ.ofOption _
      | builtin name =>
        cases hs : Γ.callType? (.builtin name) (args.map Expr.ty) with
        | none =>
          have hcall : m.eval (.call note (.builtin name) args) = Eval.ofOption none := by
            rw [Machine.eval, hs]
            exact fun _ h => by cases h
          rw [hcall]
          exact hQ.ofOption none
        | some s =>
          rw [eval_call (fun _ h => by cases h) hs]
          exact hQ.bind (hQ.evalArguments s.outputs ih) hself
    | swizzle note a set ks =>
      have ha := ih a (by simp [Expr.children])
      rw [eval_swizzle, evalPlace_swizzle]
      exact ⟨hQ.bind ha.1 fun v => hQ.ofOption _, hQ.bind ha.2 fun p => hQ.pure _⟩
    | field note a name =>
      have ha := ih a (by simp [Expr.children])
      rw [eval_field, evalPlace_field]
      exact ⟨hQ.bind ha.1 fun v => hQ.ofOption _, hQ.bind ha.2 fun p => hQ.pure _⟩
    | index note a b =>
      have ha := ih a (by simp [Expr.children])
      have hb := ih b (by simp [Expr.children])
      rw [eval_index, evalPlace_index]
      exact ⟨hQ.bind ha.1 fun v => hQ.bind hb.1 fun w => hQ.bind (hQ.ofOption _) fun i => hQ.ofOption _,
        hQ.bind ha.2 fun p => hQ.bind hb.1 fun w => hQ.bind (hQ.ofOption _) fun i =>
          hQ.bind (hQ.ofOption _) fun s => hQ.pure _⟩
    | seq note es =>
      refine ⟨?_, hnone⟩
      rw [eval_seq]
      exact hQ.bind (hQ.evalAll fun a ha => (ih a ha).1) fun vs => hQ.ofOption _

end Within

end Machine

end GlslEs
