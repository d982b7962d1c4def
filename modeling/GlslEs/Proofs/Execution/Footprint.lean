import GlslEs.Proofs.Execution.Evaluation

/-!
# What evaluation reads and changes

A computation stays within two sets of variables when it depends on the first alone and changes
nothing outside the second.  Two computations commute where neither changes what the other depends
on.

* `Execution.Within`: a computation depends on some variables and changes some variables.
* `Execution.Within.comm`: **computations that do not touch each other commute**.
* `Interpretation.within_eval`: **an expression that calls only simple functions stays within its
  variables, and changes only the roots of its assignments, increments and arguments**.
-/

namespace GlslEs

namespace Execution

variable {V α β γ : Type}

/-- Two stores hold the same in some variables. -/
def Memory.AgreeOn (R : Variable → Prop) (σ τ : Memory V) : Prop := ∀ x, R x → σ x = τ x

/-- Both results are missing, or they have the same value and their stores hold the same in some
variables. -/
def SameResult (R : Variable → Prop) : Option (α × Memory V) → Option (α × Memory V) → Prop
  | some (a, σ), some (b, τ) => a = b ∧ σ.AgreeOn R τ
  | none, none => True
  | _, _ => False

/-- The computation depends on the variables `R` alone and changes only variables in `W`. -/
structure Within (R W : Variable → Prop) (act : Action V α) : Prop where
  keeps : ∀ {σ a σ'}, act σ = some (a, σ') → ∀ x, ¬ W x → σ' x = σ x
  reads : ∀ {σ τ}, σ.AgreeOn R τ → SameResult R (act σ) (act τ)

theorem bind_apply (act : Action V α) (f : α → Action V β) (σ : Memory V) :
    (act >>= f) σ = (act σ).bind fun r => f r.1 r.2 := rfl

namespace Within

variable {R W R' W' : Variable → Prop} {act : Action V α} {act' : Action V β} {f : α → Action V β}

theorem pure (a : α) : Within R W (pure a : Action V α) where
  keeps h x _ := by
    cases h
    rfl
  reads h := ⟨rfl, h⟩

theorem ofOption (a : Option α) : Within R W (Action.ofOption a : Action V α) where
  keeps h x _ := by
    obtain ⟨_, -, h⟩ := Option.map_eq_some_iff.mp h
    cases h
    rfl
  reads h := by
    cases a with
    | none => trivial
    | some a => exact ⟨rfl, h⟩

/-- Any computation stays within all variables. -/
theorem all (act : Action V α) : Within (fun _ => True) (fun _ => True) act where
  keeps _ x hx := absurd trivial hx
  reads {σ τ} h := by
    rw [show σ = τ from funext fun x => h x trivial]
    cases act τ with
    | none => trivial
    | some a => exact ⟨rfl, fun _ _ => rfl⟩

/-- What a computation gives in one store it also gives in a store that holds the same in the
variables it depends on. -/
theorem exists_of_agree (h : Within R W act) {σ τ σ' : Memory V} {a : α} (hagree : σ.AgreeOn R τ)
    (ha : act σ = some (a, σ')) : ∃ τ', act τ = some (a, τ') ∧ σ'.AgreeOn R τ' := by
  have hsame := h.reads hagree
  rw [ha] at hsame
  cases hτ : act τ with
  | none =>
    rw [hτ] at hsame
    exact hsame.elim
  | some b =>
    rw [hτ] at hsame
    exact ⟨b.2, by rw [hsame.1], hsame.2⟩

theorem none_of_agree (h : Within R W act) {σ τ : Memory V} (hagree : σ.AgreeOn R τ)
    (ha : act σ = none) : act τ = none := by
  have hsame := h.reads hagree
  rw [ha] at hsame
  cases hτ : act τ with
  | none => rfl
  | some b =>
    rw [hτ] at hsame
    exact hsame.elim

theorem bind_of (hact : Within R W act)
    (hf : ∀ σ a σ', act σ = some (a, σ') → Within R W (f a)) : Within R W (act >>= f) where
  keeps {σ b σ''} h x hx := by
    obtain ⟨⟨a, σ'⟩, ha, h⟩ := Option.bind_eq_some_iff.mp h
    exact ((hf σ a σ' ha).keeps h x hx).trans (hact.keeps ha x hx)
  reads {σ τ} h := by
    rw [bind_apply, bind_apply]
    cases hσ : act σ with
    | none =>
      rw [hact.none_of_agree h hσ]
      trivial
    | some a =>
      obtain ⟨τ', hτ, hagree⟩ := hact.exists_of_agree h hσ
      rw [hτ]
      exact (hf σ a.1 a.2 hσ).reads hagree

theorem bind (hact : Within R W act) (hf : ∀ a, Within R W (f a)) : Within R W (act >>= f) :=
  hact.bind_of fun _ a _ _ => hf a

/-- Computations that do not touch each other commute. -/
theorem comm (h : Within R W act) (h' : Within R' W' act') (hW : ∀ x, W x → R x)
    (hW' : ∀ x, W' x → R' x) (hR : ∀ x, R x → ¬ W' x) (hR' : ∀ x, R' x → ¬ W x)
    (f : α → β → Action V γ) :
    (do let a ← act; let b ← act'; f a b) = (do let b ← act'; let a ← act; f a b) := by
  funext σ
  simp only [bind_apply]
  cases ha : act σ with
  | none =>
    cases hb : act' σ with
    | none => rfl
    | some b =>
      have hagree : σ.AgreeOn R b.2 := fun x hx => (h'.keeps hb x (hR x hx)).symm
      rw [Option.bind_none, Option.bind_some, h.none_of_agree hagree ha]
      rfl
  | some a =>
    have hagree' : σ.AgreeOn R' a.2 := fun x hx => (h.keeps ha x (hR' x hx)).symm
    cases hb : act' σ with
    | none =>
      rw [Option.bind_some, Option.bind_none, h'.none_of_agree hagree' hb]
      rfl
    | some b =>
      have hagree : σ.AgreeOn R b.2 := fun x hx => (h'.keeps hb x (hR x hx)).symm
      obtain ⟨σ₁, hb₁, hσ₁⟩ := h'.exists_of_agree hagree' hb
      obtain ⟨σ₂, ha₂, hσ₂⟩ := h.exists_of_agree hagree ha
      rw [Option.bind_some, Option.bind_some, hb₁, ha₂, Option.bind_some, Option.bind_some]
      -- each variable is changed by at most one of the two
      have hstores : σ₁ = σ₂ := by
        funext x
        by_cases hx : W x
        · rw [h'.keeps hb₁ x (hR x (hW x hx)), hσ₂ x (hW x hx)]
        · rw [h.keeps ha₂ x hx]
          by_cases hx' : W' x
          · exact (hσ₁ x (hW' x hx')).symm
          · rw [h'.keeps hb₁ x hx', h.keeps ha x hx, h'.keeps hb x hx']
      rw [hstores]

end Within

end Execution

/-! ### The variables of an expression -/

namespace Expr

/-- The names of the variables in an expression. -/
def varNames (e : Expr) : List String :=
  e.nodes.filterMap fun
    | .var _ name => some name
    | _ => none

/-- The names of the functions that an expression calls. -/
def calls (e : Expr) : List String :=
  e.nodes.filterMap fun
    | .call _ callee _ => some callee.name
    | _ => none

/-- The names of the variables that an expression assigns to, increments or passes on as they
are. -/
def changed (e : Expr) : List String :=
  e.nodes.flatMap fun
    | .assign _ _ target _ => target.rootVariable?.toList
    | .unary _ op operand => if op.isIncrement then operand.rootVariable?.toList else []
    | .call _ _ args => args.filterMap rootVariable?
    | _ => []

theorem varNames_subset {e c : Expr} (h : c ∈ e.children) : c.varNames ⊆ e.varNames := by
  intro x hx
  unfold varNames at hx ⊢
  rw [nodes_eq_cons, List.filterMap_cons, List.filterMap_flatMap]
  have : x ∈ e.children.flatMap fun c => c.varNames := List.mem_flatMap.mpr ⟨c, h, hx⟩
  split <;> simp_all [varNames]

theorem calls_subset {e c : Expr} (h : c ∈ e.children) : c.calls ⊆ e.calls := by
  intro x hx
  unfold calls at hx ⊢
  rw [nodes_eq_cons, List.filterMap_cons, List.filterMap_flatMap]
  have : x ∈ e.children.flatMap fun c => c.calls := List.mem_flatMap.mpr ⟨c, h, hx⟩
  split <;> simp_all [calls]

theorem changed_subset {e c : Expr} (h : c ∈ e.children) : c.changed ⊆ e.changed := by
  intro x hx
  unfold changed at hx ⊢
  rw [nodes_eq_cons, List.flatMap_cons, List.flatMap_assoc, List.mem_append]
  exact .inr (List.mem_flatMap.mpr ⟨c, h, hx⟩)

theorem rootVariable?_mem_varNames {e : Expr} {name : String} (h : e.rootVariable? = some name) :
    name ∈ e.varNames := by
  induction e with
  | var note x =>
    obtain rfl : x = name := by simpa [rootVariable?] using h
    simp [varNames, nodes]
  | swizzle note base set components ih | field note base x ih =>
    exact varNames_subset (by simp [children]) (ih h)
  | index note base position iha => exact varNames_subset (by simp [children]) (iha h)
  | _ => simp [rootVariable?] at h

/-- What an expression changes is among its variables. -/
theorem changed_subset_varNames (e : Expr) : e.changed ⊆ e.varNames := by
  induction e using Expr.forall_of_children with
  | h e ih =>
    intro x hx
    have hroot : ∀ c ∈ e.children, c.rootVariable? = some x → x ∈ e.varNames := fun c hc h =>
      varNames_subset hc (rootVariable?_mem_varNames h)
    unfold changed at hx
    rw [nodes_eq_cons, List.flatMap_cons, List.flatMap_assoc, List.mem_append] at hx
    rcases hx with hx | hx
    · -- the expression itself changes the roots of some of its operands
      split at hx
      · exact hroot _ (by simp [children]) (Option.mem_toList.mp hx)
      · split at hx
        · exact hroot _ (by simp [children]) (Option.mem_toList.mp hx)
        · cases hx
      · obtain ⟨c, hc, hx⟩ := List.mem_filterMap.mp hx
        exact hroot c hc hx
      · cases hx
    · obtain ⟨c, hc, hx⟩ := List.mem_flatMap.mp hx
      exact varNames_subset hc (ih c hc hx)

end Expr

open Execution

namespace Interpretation

variable {V : Type} (I : Interpretation V) {ρ : Bindings} {R W : Variable → Prop} {p : Spot V}
  {op : AssignOp} {x : Spot V × Option V} {as : List (Passed V)} {es : List Expr}

/-! ### Places -/

theorem within_read (h : R p.root) : Within R W (I.read p) where
  keeps hread x _ := by
    obtain ⟨_, -, hread⟩ := Option.map_eq_some_iff.mp hread
    cases hread
    rfl
  reads {σ τ} hagree := by
    unfold read
    rw [hagree p.root h]
    cases I.selectAll? p.path (τ p.root) with
    | none => trivial
    | some v => exact ⟨rfl, hagree⟩

theorem within_write {v : V} (h : R p.root) (h' : W p.root) :
    Within R W (I.write p v) where
  keeps hwrite x hx := by
    obtain ⟨_, -, hwrite⟩ := Option.map_eq_some_iff.mp hwrite
    cases hwrite
    exact if_neg fun heq : x = p.root => hx (heq ▸ h')
  reads {σ τ} hagree := by
    unfold write
    rw [hagree p.root h]
    cases I.replaceAll? v p.path (τ p.root) with
    | none => trivial
    | some w =>
      refine ⟨rfl, fun x hx => ?_⟩
      show (if x = p.root then w else σ x) = if x = p.root then w else τ x
      rw [hagree x hx]

theorem within_increment {op : UnaryOp} (h : R p.root) (h' : W p.root) :
    Within R W (I.increment op p) :=
  (I.within_read h).bind fun _ => (Within.ofOption _).bind fun _ =>
    (I.within_write h h').bind fun _ => .pure _

theorem within_target (h : op ≠ .plain → R p.root) : Within R W (I.target op p) := by
  cases op with
  | plain => exact .pure _
  | joined op => exact (I.within_read (h nofun)).bind fun _ => .pure _

theorem fst_of_target {σ σ' : Memory V} (h : I.target op p σ = some (x, σ')) : x.1 = p := by
  cases op with
  | plain =>
    cases h
    rfl
  | joined op =>
    obtain ⟨_, -, h⟩ := Option.bind_eq_some_iff.mp h
    cases h
    rfl

theorem within_assign {v : V} (h : R x.1.root) (h' : W x.1.root) : Within R W (I.assign op x v) :=
  (Within.ofOption _).bind fun _ => (I.within_write h h').bind fun _ => .pure _

/-- The place that an expression names is a part of its root. -/
theorem root_of_place {e : Expr} {σ σ' : Memory V}
    (h : I.place ρ e σ = some (p, σ')) : ∃ name, e.rootVariable? = some name ∧ p.root = ρ.find name := by
  induction e generalizing p σ σ' with
  | var note name =>
    rw [place] at h
    cases h
    exact ⟨name, rfl, rfl⟩
  | swizzle note base set components ih | field note base name ih =>
    rw [place] at h
    obtain ⟨⟨q, τ⟩, hq, h⟩ := Option.bind_eq_some_iff.mp h
    cases h
    exact ih (p := q) hq
  | index note base position iha =>
    rw [place] at h
    obtain ⟨⟨q, τ⟩, hq, h⟩ := Option.bind_eq_some_iff.mp h
    obtain ⟨v, -, h⟩ := Option.bind_eq_some_iff.mp h
    cases h
    exact iha (p := q) hq
  | _ =>
    have hnone : none = some (p, σ') := h
    cases hnone

/-! ### Functions -/

theorem within_leaveAll (news : List (Option V))
    (h : ∀ a ∈ as, ∀ p, a.place = some p → R p.root ∧ W p.root) :
    Within R W (I.leaveAll as news) := by
  induction as generalizing news with
  | nil => exact .pure _
  | cons a as ih =>
    cases news with
    | nil => exact .pure _
    | cons new news =>
      have hrest := ih news fun b hb => h b (List.mem_cons_of_mem a hb)
      refine Within.bind ?_ fun _ => hrest
      unfold leave
      split
      · rename_i p v hp
        obtain ⟨hR, hW⟩ := h a List.mem_cons_self p hp
        exact I.within_write hR hW
      · exact .pure _

theorem within_invoke {name : String} (hsimple : (I.routine name).isSimple = true)
    (h : ∀ a ∈ as, ∀ p, a.place = some p → R p.root ∧ W p.root) :
    Within R W (I.invoke name as) := by
  unfold invoke
  cases hroutine : I.routine name with
  | simple run =>
    exact (Within.ofOption _).bind fun r => (I.within_leaveAll r.2 h).bind fun _ => .pure _
  | general run => simp [hroutine, Routine.isSimple] at hsimple

theorem place_of_arguments {σ σ' : Memory V} (h : I.arguments ρ es σ = some (as, σ')) :
    ∀ a ∈ as, ∀ p, a.place = some p →
      ∃ e ∈ es, ∃ name, e.rootVariable? = some name ∧ p.root = ρ.find name := by
  induction es generalizing as σ σ' with
  | nil =>
    rw [arguments] at h
    cases h
    simp
  | cons e es ih =>
    rw [arguments] at h
    obtain ⟨⟨a, σ₁⟩, ha, h⟩ := Option.bind_eq_some_iff.mp h
    obtain ⟨⟨as, σ₂⟩, has, h⟩ := Option.bind_eq_some_iff.mp h
    cases h
    intro b hb p hp
    rcases List.mem_cons.mp hb with rfl | hb
    · refine ⟨e, List.mem_cons_self, ?_⟩
      unfold argument at ha
      split at ha
      · obtain ⟨⟨q, τ⟩, hq, ha⟩ := Option.bind_eq_some_iff.mp ha
        obtain ⟨v, -, ha⟩ := Option.bind_eq_some_iff.mp ha
        cases ha
        cases hp
        exact I.root_of_place hq
      · obtain ⟨v, -, ha⟩ := Option.bind_eq_some_iff.mp ha
        cases ha
        cases hp
    · obtain ⟨e, he, hname⟩ := ih has b hb p hp
      exact ⟨e, List.mem_cons_of_mem _ he, hname⟩

/-! ### Expressions -/

/-- The variables of the expression are in `R`, those that it may change in `W`, and it calls only
simple functions. -/
structure Fits (ρ : Bindings) (R W : Variable → Prop) (e : Expr) : Prop where
  varNames : ∀ x ∈ e.varNames, R (ρ.find x)
  changed : ∀ x ∈ e.changed, W (ρ.find x)
  calls : ∀ f ∈ e.calls, (I.routine f).isSimple = true

variable {I}

theorem Fits.child {e c : Expr} (h : I.Fits ρ R W e) (hc : c ∈ e.children) : I.Fits ρ R W c where
  varNames x hx := h.varNames x (Expr.varNames_subset hc hx)
  changed x hx := h.changed x (Expr.changed_subset hc hx)
  calls f hf := h.calls f (Expr.calls_subset hc hf)

theorem Fits.root {e : Expr} (h : I.Fits ρ R W e) {σ σ' : Memory V}
    (hp : I.place ρ e σ = some (p, σ')) : R p.root := by
  obtain ⟨name, hname, hroot⟩ := I.root_of_place hp
  rw [hroot]
  exact h.varNames name (Expr.rootVariable?_mem_varNames hname)

theorem within_evalAll (h : ∀ e ∈ es, Within R W (I.eval ρ e)) : Within R W (I.evalAll ρ es) := by
  induction es with
  | nil =>
    rw [evalAll]
    exact .pure _
  | cons e es ih =>
    rw [evalAll]
    exact (h e List.mem_cons_self).bind fun _ =>
      (ih fun c hc => h c (List.mem_cons_of_mem e hc)).bind fun _ => .pure _

theorem within_arguments (hfits : ∀ e ∈ es, I.Fits ρ R W e)
    (h : ∀ e ∈ es, Within R W (I.eval ρ e) ∧ Within R W (I.place ρ e)) :
    Within R W (I.arguments ρ es) := by
  induction es with
  | nil =>
    rw [arguments]
    exact .pure _
  | cons e es ih =>
    obtain ⟨heval, hplace⟩ := h e List.mem_cons_self
    rw [arguments]
    refine Within.bind ?_ fun _ => (ih (fun c hc => hfits c (List.mem_cons_of_mem e hc))
      fun c hc => h c (List.mem_cons_of_mem e hc)).bind fun _ => .pure _
    unfold argument
    split
    · exact hplace.bind_of fun σ p σ' hp =>
        (I.within_read ((hfits e List.mem_cons_self).root hp)).bind fun _ => .pure _
    · exact heval.bind fun _ => .pure _

/-- An expression that calls only simple functions stays within its variables. -/
theorem within_eval (e : Expr) (h : I.Fits ρ R W e) :
    Within R W (I.eval ρ e) ∧ Within R W (I.place ρ e) := by
  induction e using Expr.forall_of_children with
  | h e ih =>
    have operand : ∀ {a : Expr}, a ∈ e.children →
        Within R W (I.eval ρ a) ∧ Within R W (I.place ρ a) := fun ha => ih _ ha (h.child ha)
    have noPlace : Within R W (Action.ofOption none : Action V (Spot V)) := .ofOption _
    cases e with
    | lit note value =>
      rw [eval]
      exact ⟨.pure _, noPlace⟩
    | var note name =>
      rw [eval, place]
      exact ⟨I.within_read (h.varNames name (by simp [Expr.varNames, Expr.nodes])), .pure _⟩
    | unary note op a =>
      obtain ⟨heval, hplace⟩ := operand (a := a) (by simp [Expr.children])
      rw [eval]
      refine ⟨?_, noPlace⟩
      split
      · rename_i hop
        refine hplace.bind_of fun σ p σ' hp => ?_
        obtain ⟨name, hname, hroot⟩ := I.root_of_place hp
        refine I.within_increment ((h.child (by simp [Expr.children])).root hp) ?_
        rw [hroot]
        exact h.changed name (by simp [Expr.changed, Expr.nodes, hop, hname])
      · exact heval.bind fun _ => .ofOption _
    | binary note op left right =>
      obtain ⟨hleft, -⟩ := operand (a := left) (by simp [Expr.children])
      obtain ⟨hright, -⟩ := operand (a := right) (by simp [Expr.children])
      rw [eval]
      refine ⟨hleft.bind fun v => ?_, noPlace⟩
      split
      · refine Within.bind (.ofOption _) fun b => ?_
        split
        · exact hright
        · exact .pure _
      · refine Within.bind (.ofOption _) fun b => ?_
        split
        · exact .pure _
        · exact hright
      · exact hright.bind fun _ => .ofOption _
    | assign note op target value =>
      obtain ⟨-, htarget⟩ := operand (a := target) (by simp [Expr.children])
      obtain ⟨hvalue, -⟩ := operand (a := value) (by simp [Expr.children])
      rw [eval]
      refine ⟨htarget.bind_of fun σ p σ' hp => ?_, noPlace⟩
      obtain ⟨name, hname, hroot⟩ := I.root_of_place hp
      have hR := (h.child (by simp [Expr.children])).root hp
      have hW : W p.root := by
        rw [hroot]
        exact h.changed name (by simp [Expr.changed, Expr.nodes, hname])
      refine (I.within_target fun _ => hR).bind_of fun τ x τ' hx => hvalue.bind fun v => ?_
      rw [← I.fst_of_target hx] at hR hW
      exact I.within_assign hR hW
    | ternary note condition ifTrue ifFalse =>
      obtain ⟨hcondition, -⟩ := operand (a := condition) (by simp [Expr.children])
      obtain ⟨htrue, -⟩ := operand (a := ifTrue) (by simp [Expr.children])
      obtain ⟨hfalse, -⟩ := operand (a := ifFalse) (by simp [Expr.children])
      rw [eval]
      refine ⟨hcondition.bind fun v => Within.bind (.ofOption _) fun b => ?_, noPlace⟩
      split
      · exact htrue
      · exact hfalse
    | call note callee args =>
      have hargs := within_arguments (fun e he => h.child he) fun e he => operand he
      rw [eval]
      refine ⟨hargs.bind_of fun σ as σ' has => I.within_invoke ?_ fun a ha p hp => ?_, noPlace⟩
      · exact h.calls _ (by simp [Expr.calls, Expr.nodes])
      · obtain ⟨e, he, name, hname, hroot⟩ := I.place_of_arguments has a ha p hp
        rw [hroot]
        have hmem := Expr.rootVariable?_mem_varNames hname
        refine ⟨(h.child he).varNames name hmem, h.changed name ?_⟩
        simp only [Expr.changed, Expr.nodes, List.flatMap_cons, List.mem_append, List.mem_filterMap]
        exact .inl ⟨e, he, hname⟩
    | swizzle note base set components | field note base name =>
      obtain ⟨heval, hplace⟩ := operand (a := base) (by simp [Expr.children])
      rw [eval, place]
      exact ⟨heval.bind fun _ => .ofOption _, hplace.bind fun _ => .pure _⟩
    | index note base position =>
      obtain ⟨heval, hplace⟩ := operand (a := base) (by simp [Expr.children])
      obtain ⟨hposition, -⟩ := operand (a := position) (by simp [Expr.children])
      rw [eval, place]
      exact ⟨heval.bind fun _ => hposition.bind fun _ => .ofOption _,
        hplace.bind fun _ => hposition.bind fun _ => .pure _⟩
    | seq note exprs =>
      rw [eval]
      exact ⟨(within_evalAll fun e he => (operand he).1).bind fun _ => .ofOption _, noPlace⟩

end Interpretation

end GlslEs
