import GlslEs.Optimize.Identity
import GlslEs.Proofs.Constant.Typed
import GlslEs.Proofs.Semantics.Agree
import Mathlib

/-!
# The value of a spelled-out zero or one

An expression whose literal components are all zero, or all one, has a value with that component
everywhere, whatever constructors it goes through: conversions take zeros to zeros and ones to
ones, and a matrix made of one scalar is filled with it only if the scalar is zero.

* `Constant.unit`: the zero or one of a kind.
* `Datum.IsNeutral`: a family of components that conversions keep.
* `Machine.eval_of_isZero`, `Machine.eval_of_isOne`: the value of a spelled-out zero or one.
-/

namespace GlslEs

variable {F : Type} {Γ : Environment} {cs : List Constant}

/-! ### Families of components -/

namespace Constant

variable {c : Constant}

/-- The zero or the one of a kind. -/
def unit (one : Bool) (s : Scalar) : Constant := convert s (.bool one)

theorem scalar_unit (one : Bool) (s : Scalar) : (unit one s).scalar = s := scalar_convert s _

theorem eq_unit_of_isPositiveZero (h : c.isPositiveZero = true) : c = unit false c.scalar := by
  cases c with
  | float x | int x | uint x =>
    obtain rfl : x = _ := beq_iff_eq.mp h
    rfl
  | bool x => cases h

theorem eq_unit_of_isOne (h : c.isOne = true) : c = unit true c.scalar := by
  cases c with
  | float x | int x | uint x =>
    obtain rfl : x = _ := beq_iff_eq.mp h
    rfl
  | bool x => cases h

end Constant

/-- Constants with a property stand for one component of each kind, and conversions go from one to
the other. -/
structure Datum.IsNeutral (f : FloatArith F) (p : Constant → Bool) (u : Scalar → Datum F) :
    Prop where
  ofConstant : ∀ c, p c = true → Datum.ofConstant f c = u c.scalar
  convert : ∀ s t, (u s).convert f t = u t

theorem Datum.isNeutral_zero (f : FloatArith F) :
    IsNeutral f Constant.isPositiveZero (zero f) where
  ofConstant c hc := by
    rw [Constant.eq_unit_of_isPositiveZero hc, Constant.scalar_unit]
    cases c.scalar with
    | float => exact congrArg Datum.float f.ofSingle_zero
    | _ => rfl
  convert s t := by
    cases s <;> cases t <;>
      simp [zero, Datum.convert, f.ofInt32_zero, f.ofUInt32_zero, f.toInt32_zero, f.toUInt32_zero,
        f.toBool_zero, show (0 : Int32).toUInt32 = 0 from rfl]

theorem Datum.isNeutral_one (f : FloatArith F) : IsNeutral f Constant.isOne (one f) where
  ofConstant c hc := by
    rw [Constant.eq_unit_of_isOne hc, Constant.scalar_unit]
    cases c.scalar with
    | float => exact congrArg Datum.float f.ofSingle_one
    | _ => rfl
  convert s t := by
    cases s <;> cases t <;>
      simp [one, Datum.convert, f.ofInt32_one, f.ofUInt32_one, f.toInt32_one, f.toUInt32_one,
        f.toBool_one, show (1 : Int32).toUInt32 = 1 from rfl]

/-- The value of a type with one component everywhere. -/
def Value.uniform (u : Scalar → Datum F) (t : Ty) : Value F :=
  .data (List.replicate t.components (u (t.scalar?.getD .float)))

/-! ### Constructors -/

/-- The type of a scalar or vector. -/
def Ty.IsFlat (t : Ty) : Prop :=
  ∃ s shape, t = ⟨.value s shape, none⟩ ∧ t.isMatrix = false ∧ 0 < t.components

namespace Value

theorem uniform_value (u : Scalar → Datum F) (s : Scalar) (shape : Shape) :
    uniform u ⟨.value s shape, none⟩ = .data (List.replicate shape.components (u s)) :=
  rfl

theorem components?_uniform (u : Scalar → Datum F) (t : Ty) :
    (uniform u t).components? =
      some (List.replicate t.components (u (t.scalar?.getD .float))) :=
  rfl

/-- A constructor of a scalar, vector or matrix carries a neutral component from its arguments to
its result. -/
theorem constructData?_uniform {f : FloatArith F} {p : Constant → Bool} {u : Scalar → Datum F}
    (hu : Datum.IsNeutral f p u) {s : Scalar} {shape : Shape} {ts : List Ty}
    (hproblem : Ty.valueProblem? ⟨.value s shape, none⟩ ts = none)
    (hflat : ∀ t ∈ ts, t.IsFlat)
    (hmatrix : Ty.isMatrix ⟨.value s shape, none⟩ = true →
      u = Datum.zero f ∧ ∃ t, ts = [t] ∧ t.isScalar = true) :
    constructData? f s shape (ts.map fun t => (t, uniform u t)) =
      some (List.replicate shape.components (u s)) := by
  by_cases hone : ∃ t, ts = [t] ∧ t.isScalar = true
  · obtain ⟨t, rfl, ht⟩ := hone
    obtain ⟨s', shape', rfl, -, -⟩ := hflat t (by simp)
    have hshape : shape' = .scalar := beq_iff_eq.mp (Bool.and_eq_true_iff.mp ht).2
    subst hshape
    cases shape with
    | scalar | vector n => simp [constructData?, uniform_value, Shape.components, hu.convert]
    | matrix columns rows =>
      obtain ⟨rfl, -⟩ := hmatrix rfl
      simp [constructData?, uniform_value, Shape.components, hu.convert, Datum.diagonal]
  · have hsum : shape.components ≤ (ts.map Ty.components).sum := by
      refine Ty.components_le_of_valueProblem? hproblem (fun t ht => ?_) fun t ht => ⟨?_, ?_⟩
      · obtain ⟨-, -, -, -, hpos⟩ := hflat t ht
        exact hpos
      · exact Bool.eq_false_iff.mpr fun hs => hone ⟨t, ht, hs⟩
      · obtain ⟨-, -, -, hm, -⟩ := hflat t (ht ▸ List.mem_cons_self)
        rw [hm, Bool.and_false]
    unfold constructData?
    split
    · rename_i hmap
      obtain ⟨t, rfl, ht⟩ := List.map_eq_singleton_iff.mp hmap
      cases ht
      exact (hone ⟨_, rfl, rfl⟩).elim
    · rename_i hmap _
      obtain ⟨t, rfl, ht⟩ := List.map_eq_singleton_iff.mp hmap
      cases ht
      exact (hone ⟨_, rfl, rfl⟩).elim
    · rename_i hmap
      obtain ⟨t, rfl, ht⟩ := List.map_eq_singleton_iff.mp hmap
      cases ht
      obtain ⟨-, -, -, hm, -⟩ := hflat _ List.mem_cons_self
      cases hm
    · have hcomponents : (ts.map fun t => (t, uniform u t)).mapM (fun a => a.2.components?) =
          some (ts.map fun t => List.replicate t.components (u (t.scalar?.getD .float))) := by
        refine mapM_of_forall₂ ?_
        rw [List.forall₂_map_left_iff, List.forall₂_map_right_iff]
        exact List.forall₂_same.mpr fun t _ => components?_uniform u t
      rw [hcomponents, Option.bind_eq_bind, Option.bind_some]
      have hlength : (ts.map fun t =>
          List.replicate t.components (u (t.scalar?.getD .float))).flatten.length =
            (ts.map Ty.components).sum := by
        rw [List.length_flatten, List.map_map]
        congr 1
        refine List.map_congr_left fun t _ => ?_
        exact List.length_replicate
      rw [if_pos (by rw [hlength]; exact hsum), Option.some.injEq, List.eq_replicate_iff]
      refine ⟨?_, fun c hc => ?_⟩
      · rw [List.length_map, List.length_take, hlength]
        exact Nat.min_eq_left hsum
      · obtain ⟨d, hd, rfl⟩ := List.mem_map.mp hc
        obtain ⟨ds, hds, hd⟩ := List.mem_flatten.mp (List.mem_of_mem_take hd)
        obtain ⟨t, -, rfl⟩ := List.mem_map.mp hds
        rw [List.eq_of_mem_replicate hd, hu.convert]

end Value

/-! ### Expressions -/

theorem Expr.exists_of_literalComponentsAll? {p : Constant → Bool} {es : List Expr}
    (h : literalComponentsAll? es = some cs) (hp : ∀ c ∈ cs, p c = true) {e : Expr} (he : e ∈ es) :
    ∃ cs', e.literalComponents? = some cs' ∧ ∀ c ∈ cs', p c = true := by
  induction es generalizing cs with
  | nil => cases he
  | cons e' es ih =>
    simp only [literalComponentsAll?, Option.bind_eq_bind, Option.bind_eq_some_iff,
      Option.pure_def, Option.some.injEq] at h
    obtain ⟨first, hfirst, rest, hrest, rfl⟩ := h
    rcases List.mem_cons.mp he with rfl | he
    · exact ⟨first, hfirst, fun c hc => hp c (List.mem_append_left rest hc)⟩
    · exact ih hrest (fun c hc => hp c (List.mem_append_right first hc)) he

/-- Which constructors spell their components out. -/
theorem Expr.literalComponents?_constructor {note : Note} {ty : Ty} {args : List Expr}
    (h : (call note (.constructor ty) args).literalComponents? = some cs) :
    ty.isArray = false ∧ ty.isStruct = false ∧ (∀ a ∈ args, a.ty.isMatrix = false) ∧
      (ty.isMatrix = true → ∃ t, args.map Expr.ty = [t] ∧ t.isScalar = true) ∧
      literalComponentsAll? args = some cs := by
  rw [literalComponents?] at h
  split at h
  · cases h
  · rename_i hplain
    split at h
    · cases h
    · rename_i hmatrix
      simp only [Bool.or_eq_true, not_or, Bool.not_eq_true, List.any_eq_false] at hplain
      refine ⟨hplain.1.1, hplain.1.2, hplain.2, fun hm => ?_, h⟩
      simp only [hm, Bool.true_and, Bool.not_eq_true, Bool.not_eq_false', Bool.and_eq_true,
        decide_eq_true_eq] at hmatrix
      obtain ⟨a, rfl⟩ := List.length_eq_one_iff.mp hmatrix.1
      exact ⟨a.ty, rfl, by simpa using hmatrix.2⟩

namespace Machine

variable {m : Machine F Γ} {e : Expr}

theorem evalAll_of_forall_eval {g : Ty → Value F} {es : List Expr}
    (h : ∀ e ∈ es, m.eval e = pure (g e.ty)) : m.evalAll es = pure ((es.map Expr.ty).map g) := by
  induction es with
  | nil => rfl
  | cons e es ih =>
    rw [evalAll_cons, h e (by simp), ih fun e he => h e (by simp [he])]
    rfl

/-- A constant that is spelled out with one neutral component has a value with that component
everywhere. -/
theorem eval_uniform {p : Constant → Bool} {u : Scalar → Datum F}
    (hu : Datum.IsNeutral m.floats p u) (ht : Γ.Typed e) {cs : List Constant}
    (hc : e.literalComponents? = some cs) (hp : ∀ c ∈ cs, p c = true)
    (hmatrix : e.ty.isMatrix = true → u = Datum.zero m.floats) :
    (∃ s shape, e.ty = ⟨.value s shape, none⟩) ∧ 0 < e.ty.components ∧
      m.eval e = pure (Value.uniform u e.ty) := by
  induction e using Expr.forall_of_children generalizing cs with
  | h e ih =>
    obtain ⟨⟨-, hfits⟩, hchildren⟩ := typed_iff.mp ht
    cases e with
    | lit note c =>
      have hty : (Expr.lit note c).ty = c.ty := hfits
      cases hc
      rw [hty]
      refine ⟨⟨c.scalar, .scalar, rfl⟩, Nat.one_pos, ?_⟩
      rw [eval_lit, hu.ofConstant c (hp c (by simp))]
      rfl
    | call note callee args =>
      cases callee with
      | builtin name | user name => cases hc
      | constructor ty =>
        obtain ⟨hty, hpos, hproblem⟩ := hfits
        have hty : (Expr.call note (.constructor ty) args).ty = ty := hty
        rw [hty] at hmatrix ⊢
        obtain ⟨harray, hstruct, hargs, hone, hall⟩ := Expr.literalComponents?_constructor hc
        obtain ⟨s, shape, rfl, -, hproblem⟩ := Ty.value_of_constructorProblem? hproblem
          (any_isError_of_typed hchildren) harray hstruct
        have ih : ∀ a ∈ args, a.ty.IsFlat ∧ m.eval a = pure (Value.uniform u a.ty) := by
          intro a ha
          obtain ⟨cs', hcs', hp'⟩ := Expr.exists_of_literalComponentsAll? hall hp ha
          obtain ⟨⟨s, shape, hs⟩, hpos, hv⟩ := ih a ha (hchildren a ha) hcs' hp'
            (fun h => by rw [hargs a ha] at h; cases h)
          exact ⟨⟨s, shape, hs, hargs a ha, hpos⟩, hv⟩
        refine ⟨⟨s, shape, rfl⟩, hpos, ?_⟩
        rw [eval_constructor, evalAll_of_forall_eval fun a ha => (ih a ha).2, pure_bind]
        rw [← List.map_prod_left_eq_zip, Value.construct?, Value.constructData?_uniform hu hproblem]
        · rfl
        · intro t ht
          obtain ⟨a, ha, rfl⟩ := List.mem_map.mp ht
          exact (ih a ha).1
        · exact fun h => ⟨hmatrix h, hone h⟩
    | _ => cases hc

/-- **A spelled-out zero has zeros for components.** -/
theorem eval_of_isZero (ht : Γ.Typed e) (h : e.isZero = true) :
    ∃ s shape, e.ty = ⟨.value s shape, none⟩ ∧
      m.eval e = pure (.data (List.replicate shape.components (Datum.zero m.floats s))) := by
  simp only [Expr.isZero, Expr.allComponents, Bool.and_eq_true, Option.any_eq_true,
    List.all_eq_true] at h
  obtain ⟨-, cs, hcs, -, hall⟩ := h
  obtain ⟨⟨s, shape, hty⟩, -, hv⟩ :=
    eval_uniform (Datum.isNeutral_zero m.floats) ht hcs hall (fun _ => rfl)
  refine ⟨s, shape, hty, ?_⟩
  rw [hv, hty]
  rfl

/-- **A spelled-out one is a scalar or vector with ones for components.** -/
theorem eval_of_isOne (ht : Γ.Typed e) (h : e.isOne = true) :
    e.ty.isMatrix = false ∧ ∃ s shape, e.ty = ⟨.value s shape, none⟩ ∧
      m.eval e = pure (.data (List.replicate shape.components (Datum.one m.floats s))) := by
  simp only [Expr.isOne, Expr.allComponents, Bool.and_eq_true, Option.any_eq_true,
    List.all_eq_true, Bool.not_eq_true'] at h
  obtain ⟨⟨-, hmatrix⟩, cs, hcs, -, hall⟩ := h
  obtain ⟨⟨s, shape, hty⟩, -, hv⟩ := eval_uniform (Datum.isNeutral_one m.floats) ht hcs hall
    (fun h => by rw [hmatrix] at h; cases h)
  refine ⟨hmatrix, s, shape, hty, ?_⟩
  rw [hv, hty]
  rfl

end Machine

end GlslEs
