import GlslEs.Proofs.Constant.Typed
import GlslEs.Proofs.Optimize.Algebra
import GlslEs.Proofs.Optimize.Neutral
import GlslEs.Proofs.Optimize.Step

/-!
# Optimization keeps compile-time integers

Array lengths, offsets and ranges are evaluated at compile time.  In an expression without floating-point numbers
the rules change neither a value nor whether there is one: a neutral operand is spelled out and so has a value,
and integers wrap around alike on both sides.

* `Expr.Exact`: a well-typed expression without floating-point numbers.
* `Expr.Exact.eval?_of_isZero`, `Expr.Exact.eval?_of_isOne`: spelled-out zeros and ones.
* `Expr.Exact.eval?_optimized`: **optimization keeps values, and whether there are any**.
-/

namespace GlslEs

/-! ### Types of operands -/

/-- An ordering compares two scalars of one type. -/
theorem CompareOp.of_result? {op : CompareOp} (hop : op.isEquality = false) {l r t : Ty}
    (h : (BinaryOp.compare op).result? l r = some t) : l = r ∧ l.isScalar = true := by
  unfold BinaryOp.result? at h
  split at h
  · cases h
  · cases op
    case eq | ne => cases hop
    all_goals
      dsimp only at h
      split at h
      · rename_i hcond
        simp only [Bool.and_eq_true, beq_iff_eq] at hcond
        exact hcond.1
      · cases h

theorem Names.ty_builtinNote (n : Names) (loc : Location) (name : String) (types : List Ty) (allConst : Bool) :
    (n.builtinNote loc name types allConst).ty = ((Builtin.chosen? n.version name types).map (·.result)).getD .error := by
  unfold builtinNote
  split <;> simp_all

/-- The type of a call depends on the types of the arguments only. -/
theorem Names.ty_resolveCall (n : Names) (loc : Location) (callee : Callee) {args args' : List Expr}
    (h : args.map Expr.ty = args'.map Expr.ty) :
    (n.resolveCall loc callee args).2.ty = (n.resolveCall loc callee args').2.ty := by
  have hlength : args.length = args'.length := by simpa using congrArg List.length h
  cases callee with
  | constructor ty => simp only [resolveCall, hlength]
  | builtin name => simp only [resolveCall, ty_builtinNote, h]
  | user name =>
    simp only [resolveCall, h]
    split
    · rfl
    · split
      · simp only [ty_builtinNote]
      · rfl

namespace Expr

variable {n : Names} {f : Expr → Expr}

theorem ty_resolve_call (note : Note) (callee : Callee) (args : List Expr) :
    ((call note callee args).resolve n).ty = (n.resolveCall note.loc callee (args.map (resolve n))).2.ty := by
  rw [resolve, resolveAll_eq_map]
  rfl

theorem ty_resolve_field (note : Note) (a : Expr) (name : String) :
    ((field note a name).resolve n).ty =
      match if (a.resolve n).ty.isVector then SwizzleSet.parse? name else none with
      | some (_, components) => (a.resolve n).ty.swizzled components
      | none => n.fieldType (a.resolve n).ty name := by
  rw [resolve]
  split <;> simp_all [resolvedSwizzle, ty, Expr.note]

/-- The rule for a node looks at the types of its operands only. -/
theorem ty_resolve_mapVisited {e : Expr}
    (hf : ∀ c ∈ e.visited, ((f c).resolve n).ty = (c.resolve n).ty) :
    ((e.mapVisited f).resolve n).ty = (e.resolve n).ty := by
  cases e with
  | lit note value | var note name => rfl
  | call note callee args =>
    cases callee with
    | builtin name => rfl
    | _ =>
      rw [mapVisited, ty_resolve_call, ty_resolve_call]
      · refine Names.ty_resolveCall n _ _ ?_
        rw [List.map_map, List.map_map, List.map_map]
        exact List.map_congr_left hf
      · simp
  | seq note es =>
    rw [mapVisited, ty_resolve_seq, ty_resolve_seq, List.getLast?_map, Option.map_map]
    cases hlast : es.getLast? with
    | none => rfl
    | some e => exact hf e (List.mem_of_getLast? hlast)
  | unary note op a => simp [mapVisited, hf a (by simp [visited, children])]
  | binary note op a b =>
    simp [mapVisited, hf a (by simp [visited, children]), hf b (by simp [visited, children])]
  | assign note op a b =>
    rw [mapVisited, resolve, resolve]
    exact hf a (by simp [visited, children])
  | ternary note c a b =>
    simp [mapVisited, hf a (by simp [visited, children]), hf b (by simp [visited, children])]
  | swizzle note a set ks => simp [mapVisited, hf a (by simp [visited, children])]
  | field note a name => simp only [mapVisited, ty_resolve_field, hf a (by simp [visited, children])]
  | index note a b => simp [mapVisited, hf a (by simp [visited, children])]

theorem Ruled.mapVisited {e : Expr} (h : e.Ruled n)
    (hf : ∀ c ∈ e.visited, (f c).Ruled n ∧ (f c).ty = c.ty) : (e.mapVisited f).Ruled n := by
  refine ruled_iff.mpr ⟨?_, forall_children_mapVisited (fun c hc => h.of_mem hc) fun c hc => (hf c hc).1⟩
  rw [ty_mapVisited, ty_resolve_mapVisited fun c hc => ?_]
  · exact h.self
  · rw [(hf c hc).1.self, (hf c hc).2, (h.of_mem (e.visited_subset_children hc)).self]

end Expr

/-! ### Components -/

namespace Constant

variable {c : Constant} {op : CompareOp}

theorem convert_unit (one : Bool) (s t : Scalar) : (unit one s).convert t = unit one t := by
  cases one <;> cases s <;> cases t <;> decide

/-- Zero is neutral for sums and on the right of differences, and changes the sign on their left. -/
theorem binary?_zero (hbool : c.scalar ≠ .bool) (hfloat : c.scalar ≠ .float) :
    binary? (.arith .add) c (unit false c.scalar) = some c ∧
      binary? (.arith .add) (unit false c.scalar) c = some c ∧
      binary? (.arith .sub) c (unit false c.scalar) = some c ∧
      binary? (.arith .sub) (unit false c.scalar) c = unary? .minus c := by
  cases c with
  | int x => simp [binary?, intArith?, unit, convert, scalar, unary?]
  | uint x => simp [binary?, uintArith?, unit, convert, scalar, unary?]
  | float x => exact absurd rfl hfloat
  | bool x => exact absurd rfl hbool

/-- One is neutral for products and on the right of quotients. -/
theorem binary?_one (hbool : c.scalar ≠ .bool) (hfloat : c.scalar ≠ .float) :
    binary? (.arith .mul) c (unit true c.scalar) = some c ∧
      binary? (.arith .mul) (unit true c.scalar) c = some c ∧
      binary? (.arith .div) c (unit true c.scalar) = some c := by
  cases c with
  | int x => simp [binary?, intArith?, unit, convert, scalar]
  | uint x => simp [binary?, uintArith?, unit, convert, scalar]
  | float x => exact absurd rfl hfloat
  | bool x => exact absurd rfl hbool

/-- Two equal signs cancel. -/
theorem unary?_unary? {op : UnaryOp} (hop : op.isIncrement = false) (h : op.applies c.scalar)
    (hfloat : c.scalar ≠ .float) : (unary? op c).bind (unary? op) = some c := by
  cases c with
  | float x => exact absurd rfl hfloat
  | int x | uint x | bool x => cases op <;> simp_all [unary?, UnaryOp.applies, scalar, UnaryOp.isIncrement]

theorem compares_negated (hop : op.isEquality = false) (o : Ordering) :
    (!compares op (some o)) = compares op.negated (some o) := by
  cases op with
  | eq | ne => cases hop
  | _ => cases o <;> rfl

/-- An ordering of integers fails exactly where the opposite one holds. -/
theorem binary?_negated (hop : op.isEquality = false) {d : Constant} (hfloat : c.scalar ≠ .float) :
    (binary? (.compare op) c d).bind (unary? .not) = binary? (.compare op.negated) c d := by
  cases c with
  | float x => exact absurd rfl hfloat
  | int x | uint x => cases d <;> simp [binary?, order?, unary?, compares_negated hop]
  | bool x => cases d <;> rfl

end Constant

namespace Expr

variable {lookup : String → Option (List Constant)} {op : BinaryOp} {f : Constant → Option Constant}

/-! ### Lists of components -/

theorem mapM_zip {α β γ : Type} {g : α → β → Option γ} {f : α → Option γ} {as : List α} {bs : List β}
    (hlength : bs.length = as.length) (h : ∀ a ∈ as, ∀ b ∈ bs, g a b = f a) :
    ((as.zip bs).mapM fun p => g p.1 p.2) = as.mapM f := by
  induction as generalizing bs with
  | nil => rfl
  | cons a as ih =>
    obtain ⟨b, bs, rfl⟩ := List.exists_cons_of_length_eq_add_one hlength
    rw [List.zip_cons_cons, List.mapM_cons, List.mapM_cons, h a List.mem_cons_self b List.mem_cons_self,
      ih (by simpa using hlength) fun a ha b hb => h a (List.mem_cons_of_mem _ ha) b (List.mem_cons_of_mem _ hb)]

/-- The right side does the same to every component on the left. -/
theorem evalBinary?_right (hop : op.isEquality = false) {vs us : List Constant} (hvs : vs ≠ [])
    (hlength : us.length = 1 ∨ us.length = vs.length)
    (h : ∀ v ∈ vs, ∀ u ∈ us, Constant.binary? op v u = f v) : evalBinary? op vs us = vs.mapM f := by
  unfold evalBinary?
  rw [hop, if_neg Bool.false_ne_true]
  split
  · rename_i x u rest
    obtain rfl : rest = [] := by simpa using hlength
    simp [h x List.mem_cons_self u List.mem_cons_self]
  · rename_i y hne
    exact mapM_congr fun v hv => h v hv y List.mem_cons_self
  · rename_i hleft hright
    have hsame : us.length = vs.length := hlength.resolve_left fun hone => by
      obtain ⟨u, rfl⟩ := List.length_eq_one_iff.mp hone
      obtain ⟨v, vs, rfl⟩ := List.exists_cons_of_ne_nil hvs
      exact hright v vs u rfl rfl
    rw [if_pos hsame.symm]
    exact mapM_zip hsame h

/-- The left side does the same to every component on the right. -/
theorem evalBinary?_left (hop : op.isEquality = false) {vs us : List Constant} (hvs : vs ≠ [])
    (hlength : us.length = 1 ∨ us.length = vs.length)
    (h : ∀ v ∈ vs, ∀ u ∈ us, Constant.binary? op u v = f v) : evalBinary? op us vs = vs.mapM f := by
  unfold evalBinary?
  rw [hop, if_neg Bool.false_ne_true]
  split
  · rename_i x _ _
    exact mapM_congr fun v hv => h v hv x List.mem_cons_self
  · rename_i hne
    exact absurd (by simpa using hlength) hne
  · rename_i hleft hright
    have hsame : us.length = vs.length := hlength.resolve_left fun hone => by
      obtain ⟨u, rfl⟩ := List.length_eq_one_iff.mp hone
      obtain ⟨v, vs, rfl⟩ := List.exists_cons_of_ne_nil hvs
      exact hleft u v vs rfl rfl
    rw [if_pos hsame, ← List.zip_swap, List.mapM_map]
    exact mapM_zip hsame h

/-! ### Expressions without floating-point numbers -/

variable {n : Names} {members : Ty → List Ty}

/-- A well-typed expression without floating-point numbers, vectors or matrices of them. -/
def Exact (n : Names) (members : Ty → List Ty) (e : Expr) : Prop :=
  e.WellTyped n members ∧ ∀ x ∈ e.nodes, x.ty.isFloat = true → x.ty.isArray = true

namespace Exact

variable {e : Expr} {f : Expr → Expr} {inner : Note}

theorem of_mem (h : e.Exact n members) {c : Expr} (hc : c ∈ e.children) : c.Exact n members :=
  ⟨h.1.of_mem hc, (forall_mem_nodes.mp h.2).2 c hc⟩

theorem ne_float (h : e.Exact n members) {s : Scalar} {shape : Shape} (hty : e.ty = ⟨.value s shape, none⟩) :
    s ≠ .float := by
  rintro rfl
  have := h.2 e (mem_nodes_self e)
  rw [hty] at this
  cases this rfl

theorem isMatrix_eq_false (h : e.Exact n members) : e.ty.isMatrix = false := by
  refine Bool.eq_false_iff.mpr fun hmatrix => ?_
  have hproper := (h.1 e (mem_nodes_self e)).2.1
  obtain ⟨⟨base, array⟩, hty⟩ : ∃ t, e.ty = t := ⟨_, rfl⟩
  cases array with
  | some k => simp [hty, Ty.isMatrix, Ty.isArray] at hmatrix
  | none =>
    cases base with
    | value s shape =>
      cases shape with
      | matrix columns rows =>
        rw [hty] at hproper
        exact h.ne_float hty hproper.1
      | _ => simp [hty, Ty.isMatrix, Ty.shape, Base.shape] at hmatrix
    | _ => simp [hty, Ty.isMatrix, Ty.shape, Base.shape] at hmatrix

/-- The rule for an operation gives its type. -/
theorem result?_unary {note : Note} {op : UnaryOp} {a : Expr} (h : (unary note op a).Exact n members) :
    op.result? a.ty = some note.ty := by
  have hself := h.1.ruled.self
  rw [ty_resolve_unary, (h.of_mem (c := a) (by simp [children])).1.ruled.self] at hself
  exact Ty.eq_some_of_getD hself (h.1 _ (mem_nodes_self _)).1

theorem result?_binary {note : Note} {op : BinaryOp} {a b : Expr} (h : (binary note op a b).Exact n members) :
    op.result? a.ty b.ty = some note.ty := by
  have hself := h.1.ruled.self
  rw [ty_resolve_binary, (h.of_mem (c := a) (by simp [children])).1.ruled.self,
    (h.of_mem (c := b) (by simp [children])).1.ruled.self] at hself
  exact Ty.eq_some_of_getD hself (h.1 _ (mem_nodes_self _)).1

theorem eval?_binary {note : Note} {op : BinaryOp} {a b : Expr} (h : (binary note op a b).Exact n members) :
    eval? lookup (binary note op a b) =
      (a.eval? lookup).bind fun vs => (b.eval? lookup).bind fun us => evalBinary? op vs us := by
  have ha := (h.of_mem (c := a) (by simp [children])).isMatrix_eq_false
  have hb := (h.of_mem (c := b) (by simp [children])).isMatrix_eq_false
  rw [eval?, ha, hb, Bool.or_false, Bool.and_false, if_neg Bool.false_ne_true]
  rfl

/-! ### Neutral operands -/

variable {one : Bool} {p : Constant → Bool}

/-- Spelled-out zeros or ones have values of zeros or ones. -/
theorem eval?_of_literalComponents? (hp : ∀ c, p c = true → c = Constant.unit one c.scalar)
    (hlookup : Respects n lookup) (h : e.Exact n members) {cs : List Constant} (hcs : e.literalComponents? = some cs)
    (hall : ∀ c ∈ cs, p c = true) :
    ∃ vs, e.eval? lookup = some vs ∧ ∀ v ∈ vs, v = Constant.unit one v.scalar := by
  induction e using forall_of_children generalizing cs with
  | h e ih =>
    cases e with
    | lit note c =>
      cases hcs
      exact ⟨[c], rfl, fun v hv => hp v (hall v hv)⟩
    | call note callee args =>
      cases callee with
      | constructor ty =>
        obtain ⟨harray, hstruct, -, -, hargs⟩ := literalComponents?_constructor hcs
        have hvalues : ∀ a ∈ args, ∃ vs, a.eval? lookup = some vs ∧ ∀ v ∈ vs, v = Constant.unit one v.scalar := by
          intro a ha
          obtain ⟨cs', hcs', hall'⟩ := exists_of_literalComponentsAll? hargs hall ha
          exact ih a ha (h.of_mem ha) hcs' hall'
        obtain ⟨s, shape, rfl, -⟩ := h.1.value_of_constructor harray hstruct
        have hmatrix := h.isMatrix_eq_false
        rw [← h.1.ruled.self, ty_resolve_constructor, if_neg (by simp)] at hmatrix
        obtain ⟨ws, hws, hconverted⟩ := h.1.exists_constructor hlookup hmatrix fun a ha => by
          obtain ⟨vs, hvs, -⟩ := hvalues a ha
          rw [hvs]
          rfl
        refine ⟨ws, hws, fun w hw => ?_⟩
        obtain ⟨a, ha, vs, hvs, v, hv, rfl⟩ := hconverted w hw
        obtain ⟨vs', hvs', hunit⟩ := hvalues a ha
        obtain rfl := Option.some.inj (hvs.symm.trans hvs')
        rw [hunit v hv, Constant.convert_unit, Constant.scalar_unit]
      | _ => cases hcs
    | _ => cases hcs

/-- A spelled-out zero. -/
theorem eval?_of_isZero (hlookup : Respects n lookup) (h : e.Exact n members) (hzero : e.isZero = true) :
    ∃ vs, e.eval? lookup = some vs ∧ ∀ v ∈ vs, v = Constant.unit false v.scalar := by
  simp only [isZero, allComponents, Bool.and_eq_true, Option.any_eq_true, List.all_eq_true] at hzero
  obtain ⟨-, cs, hcs, -, hall⟩ := hzero
  exact eval?_of_literalComponents? (fun _ => Constant.eq_unit_of_isPositiveZero) hlookup h hcs hall

/-- A spelled-out one. -/
theorem eval?_of_isOne (hlookup : Respects n lookup) (h : e.Exact n members) (hone : e.isOne = true) :
    ∃ vs, e.eval? lookup = some vs ∧ ∀ v ∈ vs, v = Constant.unit true v.scalar := by
  simp only [isOne, allComponents, Bool.and_eq_true, Option.any_eq_true, List.all_eq_true] at hone
  obtain ⟨-, cs, hcs, -, hall⟩ := hone
  exact eval?_of_literalComponents? (fun _ => Constant.eq_unit_of_isOne) hlookup h hcs hall

/-- The operands of arithmetic have components of one kind.  One that the other side gives its type has a single
component or as many as that side. -/
theorem operands {op : ArithOp} (hop : op.IsField) {l r t : Ty} {vs us : List Constant} (hvs : l.Fits vs)
    (hus : r.Fits us) (hmul : op = .mul → l.shape.MultipliesAlike r.shape)
    (hresult : (BinaryOp.arith op).result? l r = some t) :
    (∃ s, s ≠ .bool ∧ (∀ v ∈ vs, v.scalar = s) ∧ ∀ u ∈ us, u.scalar = s) ∧
      (t = l → us.length = 1 ∨ us.length = vs.length) ∧ (t = r → vs.length = 1 ∨ vs.length = us.length) := by
  obtain ⟨s, lsh, rsh, rfl, rfl, hs, hbroadcast⟩ := hop.operands hresult hmul
  obtain ⟨-, s₁, shape₁, hl, hlength, hscalar⟩ := hvs
  obtain ⟨-, s₂, shape₂, hr, hlength', hscalar'⟩ := hus
  cases hl
  cases hr
  refine ⟨⟨s, hs, hscalar, hscalar'⟩, ?_⟩
  rw [hlength, hlength']
  rcases Ty.broadcast?_cases hbroadcast with ⟨rfl, hsame⟩ | ⟨rfl, hne, hscalar⟩ | ⟨rfl, hne, -, hscalar⟩
  · have hsame : lsh = rsh := hsame
    exact ⟨fun _ => .inr (by rw [hsame]), fun _ => .inr (by rw [hsame])⟩
  · have hscalar : lsh = .scalar := hscalar
    exact ⟨fun heq => absurd (congrArg Ty.shape heq).symm hne, fun _ => .inl (by rw [hscalar]; rfl)⟩
  · have hscalar : rsh = .scalar := hscalar
    exact ⟨fun _ => .inl (by rw [hscalar]; rfl), fun heq => absurd (congrArg Ty.shape heq) hne⟩

variable {note : Note} {op : ArithOp} {a b : Expr}

/-- An operand on the right that is neutral may be left out. -/
theorem eval?_neutral_right (hlookup : Respects n lookup) (h : (binary note (.arith op) a b).Exact n members)
    (hop : op.IsField) (hty : a.ty = note.ty)
    (hb : ∃ us, b.eval? lookup = some us ∧ ∀ u ∈ us, u = Constant.unit one u.scalar)
    (hneutral : ∀ c : Constant, c.scalar ≠ .bool → c.scalar ≠ .float →
      Constant.binary? (.arith op) c (Constant.unit one c.scalar) = some c)
    (hmul : op = .mul → a.ty.shape.MultipliesAlike b.ty.shape) :
    eval? lookup (binary note (.arith op) a b) = a.eval? lookup := by
  have ha := h.of_mem (c := a) (by simp [children])
  obtain ⟨us, hus, hunits⟩ := hb
  rw [h.eval?_binary, hus]
  cases hvs : a.eval? lookup with
  | none => rfl
  | some vs =>
    have hfits := ha.1.fits hlookup hvs
    obtain ⟨⟨s, hbool, hkind, hkind'⟩, hlength, -⟩ := operands hop hfits
      ((h.of_mem (by simp [children])).1.fits hlookup hus) hmul h.result?_binary
    have hne := hfits.ne_nil
    obtain ⟨-, s', shape, hs, -, hkind''⟩ := hfits
    simp only [Option.bind_some]
    rw [evalBinary?_right rfl hne (hlength hty.symm) (f := some), mapM_some]
    intro v hv u hu
    have hfloat : v.scalar ≠ .float := by
      rw [hkind'' v hv]
      exact ha.ne_float hs
    rw [hunits u hu, hkind' u hu, ← hkind v hv]
    exact hneutral v (by rw [hkind v hv]; exact hbool) hfloat

/-- An operand on the left that is neutral, or acts as a sign. -/
theorem eval?_neutral_left (hlookup : Respects n lookup) (h : (binary note (.arith op) a b).Exact n members)
    (hop : op.IsField) (hty : b.ty = note.ty)
    (ha : ∃ us, a.eval? lookup = some us ∧ ∀ u ∈ us, u = Constant.unit one u.scalar)
    {f : Constant → Option Constant} (hneutral : ∀ c : Constant, c.scalar ≠ .bool → c.scalar ≠ .float →
      Constant.binary? (.arith op) (Constant.unit one c.scalar) c = f c)
    (hmul : op = .mul → a.ty.shape.MultipliesAlike b.ty.shape) :
    eval? lookup (binary note (.arith op) a b) = (b.eval? lookup).bind (·.mapM f) := by
  have hb := h.of_mem (c := b) (by simp [children])
  obtain ⟨us, hus, hunits⟩ := ha
  rw [h.eval?_binary, hus, Option.bind_some]
  cases hvs : b.eval? lookup with
  | none => rfl
  | some vs =>
    have hfits := hb.1.fits hlookup hvs
    obtain ⟨⟨s, hbool, hkind, hkind'⟩, -, hlength⟩ := operands hop
      ((h.of_mem (by simp [children])).1.fits hlookup hus) hfits hmul h.result?_binary
    have hne := hfits.ne_nil
    obtain ⟨-, s', shape, hs, -, hkind''⟩ := hfits
    simp only [Option.bind_some]
    refine evalBinary?_left rfl hne (hlength hty.symm) fun v hv u hu => ?_
    have hfloat : v.scalar ≠ .float := by
      rw [hkind'' v hv]
      exact hb.ne_float hs
    rw [hunits u hu, hkind u hu, ← hkind' v hv]
    exact hneutral v (by rw [hkind' v hv]; exact hbool) hfloat

theorem eval?_left (hlookup : Respects n lookup) (h : (binary note (.arith op) a b).Exact n members)
    (hb : Rule.RightNeutral op a b) (hty : a.ty = note.ty) :
    eval? lookup (binary note (.arith op) a b) = a.eval? lookup := by
  have hexact := h.of_mem (c := b) (by simp [children])
  rcases hb with ⟨hop, hzero⟩ | ⟨hop, hone, hcomponents⟩
  · have hvalue := hexact.eval?_of_isZero hlookup hzero
    rcases hop with rfl | rfl
    · exact eval?_neutral_right hlookup h (.inl rfl) hty hvalue (fun c hb hf => (Constant.binary?_zero hb hf).1) (by simp)
    · exact eval?_neutral_right hlookup h (.inr (.inl rfl)) hty hvalue
        (fun c hb hf => (Constant.binary?_zero hb hf).2.2.1) (by simp)
  · have hvalue := hexact.eval?_of_isOne hlookup hone
    have hmul : a.ty.shape.MultipliesAlike b.ty.shape := by
      obtain ⟨us, hus, -⟩ := hvalue
      obtain ⟨-, s, shape, hs, -⟩ := hexact.1.fits hlookup hus
      exact (Rule.multipliesAlike hexact.isMatrix_eq_false hcomponents (by rw [hs])).symm
    rcases hop with rfl | rfl
    · exact eval?_neutral_right hlookup h (.inr (.inr (.inl rfl))) hty hvalue
        (fun c hb hf => (Constant.binary?_one hb hf).1) fun _ => hmul
    · exact eval?_neutral_right hlookup h (.inr (.inr (.inr rfl))) hty hvalue
        (fun c hb hf => (Constant.binary?_one hb hf).2.2) (by simp)

theorem eval?_right (hlookup : Respects n lookup) (h : (binary note (.arith op) a b).Exact n members)
    (ha : Rule.LeftNeutral op a b) (hty : b.ty = note.ty) :
    eval? lookup (binary note (.arith op) a b) = b.eval? lookup := by
  have hexact := h.of_mem (c := a) (by simp [children])
  have hid : (b.eval? lookup).bind (·.mapM some) = b.eval? lookup := by
    cases b.eval? lookup <;> simp [mapM_some]
  rw [← hid]
  rcases ha with ⟨rfl, hzero⟩ | ⟨rfl, hone, -, hcomponents⟩
  · exact eval?_neutral_left hlookup h (.inl rfl) hty (hexact.eval?_of_isZero hlookup hzero)
      (fun c hb hf => (Constant.binary?_zero hb hf).2.1) (by simp)
  · have hvalue := hexact.eval?_of_isOne hlookup hone
    obtain ⟨us, hus, -⟩ := id hvalue
    obtain ⟨-, s, shape, hs, -⟩ := hexact.1.fits hlookup hus
    exact eval?_neutral_left hlookup h (.inr (.inr (.inl rfl))) hty hvalue
      (fun c hb hf => (Constant.binary?_one hb hf).2.1)
      fun _ => Rule.multipliesAlike hexact.isMatrix_eq_false hcomponents (by rw [hs])

/-! ### Signs, comparisons and conditionals -/

theorem eval?_plus (note : Note) (a : Expr) : eval? lookup (unary note .plus a) = a.eval? lookup := by
  have hplus : Constant.unary? .plus = some := by
    funext c
    cases c <;> rfl
  rw [eval?, hplus]
  cases a.eval? lookup <;> simp [mapM_some]

theorem eval?_twice (hlookup : Respects n lookup) {op : UnaryOp}
    (h : (unary note op (unary inner op a)).Exact n members) (hop : op.isIncrement = false) :
    eval? lookup (unary note op (unary inner op a)) = a.eval? lookup := by
  have hinner := h.of_mem (c := unary inner op a) (by simp [children])
  have ha := hinner.of_mem (c := a) (by simp [children])
  rw [eval?, eval?]
  cases hvs : a.eval? lookup with
  | none => rfl
  | some vs =>
    obtain ⟨-, s, shape, hs, -, hkind⟩ := ha.1.fits hlookup hvs
    obtain ⟨s', shape', hs', happlies⟩ := UnaryOp.value_of_result? hinner.result?_unary
    cases hs.symm.trans hs'
    refine mapM_mapM_of_involutive fun v hv => Constant.unary?_unary? hop ?_ ?_
    · rw [hkind v hv]
      exact happlies
    · rw [hkind v hv]
      exact ha.ne_float hs

theorem evalBinary?_negated (op : CompareOp) {vs us : List Constant}
    (h : op.isEquality = false → ∃ v u, vs = [v] ∧ us = [u] ∧ v.scalar ≠ .float) :
    (evalBinary? (.compare op) vs us).bind (·.mapM (Constant.unary? .not)) = evalBinary? (.compare op.negated) vs us := by
  cases hop : op.isEquality with
  | true =>
    have hnegated : op.negated.isEquality = true := by cases op <;> first | rfl | cases hop
    unfold evalBinary?
    simp only [BinaryOp.isEquality, hop, hnegated, if_true]
    split
    · generalize (vs.zip us).all (fun x => x.1.eqv x.2) = equal
      cases op with
      | eq | ne => cases equal <;> rfl
      | _ => cases hop
    · rfl
  | false =>
    have hnegated : op.negated.isEquality = false := by cases op <;> first | rfl | cases hop
    obtain ⟨v, u, rfl, rfl, hfloat⟩ := h hop
    unfold evalBinary?
    simp only [BinaryOp.isEquality, hop, hnegated, if_false, Bool.false_eq_true]
    rw [List.mapM_cons, List.mapM_cons, ← Constant.binary?_negated hop hfloat]
    cases Constant.binary? (.compare op) v u with
    | none => rfl
    | some w => simp

theorem eval?_negated (hlookup : Respects n lookup) {op : CompareOp} (new : Note)
    (h : (unary note .not (binary inner (.compare op) a b)).Exact n members) :
    eval? lookup (binary new (.compare op.negated) a b) = eval? lookup (unary note .not (binary inner (.compare op) a b)) := by
  have hinner := h.of_mem (c := binary inner (.compare op) a b) (by simp [children])
  have ha := hinner.of_mem (c := a) (by simp [children])
  have hb := hinner.of_mem (c := b) (by simp [children])
  have hresult := hinner.result?_binary
  rw [eval?, eval?, hinner.eval?_binary, if_neg (by simp)]
  cases hvs : a.eval? lookup with
  | none => rfl
  | some vs =>
    cases hus : b.eval? lookup with
    | none => rfl
    | some us =>
      refine (evalBinary?_negated op fun hop => ?_).symm
      obtain ⟨hsame, hscalar⟩ := CompareOp.of_result? hop hresult
      obtain ⟨-, s, shape, hs, hlength, hkind⟩ := ha.1.fits hlookup hvs
      obtain ⟨-, s', shape', hs', hlength', -⟩ := hb.1.fits hlookup hus
      cases hs'.symm.trans (hsame.symm.trans hs)
      rw [hs] at hscalar
      obtain rfl : shape = .scalar := beq_iff_eq.mp (Bool.and_eq_true_iff.mp hscalar).2
      obtain ⟨v, rfl⟩ := List.length_eq_one_iff.mp hlength
      obtain ⟨u, rfl⟩ := List.length_eq_one_iff.mp hlength'
      refine ⟨v, u, rfl, rfl, ?_⟩
      rw [hkind v List.mem_cons_self]
      exact ha.ne_float hs

theorem eval?_turned (hlookup : Respects n lookup) {c : Expr}
    (h : (ternary note (unary inner .not c) a b).Exact n members) :
    eval? lookup (ternary note c b a) = eval? lookup (ternary note (unary inner .not c) a b) := by
  have hnot := h.of_mem (c := unary inner .not c) (by simp [children])
  have hc := hnot.of_mem (c := c) (by simp [children])
  rw [eval?, eval?, eval?]
  cases hvs : c.eval? lookup with
  | none => rfl
  | some vs =>
    obtain ⟨s, shape, hs, happlies⟩ := UnaryOp.value_of_result? hnot.result?_unary
    obtain ⟨-, s', shape', hs', hlength, hkind⟩ := hc.1.fits hlookup hvs
    cases hs.symm.trans hs'
    obtain rfl : s = .bool := happlies
    have hty : c.ty = .bool := by
      have hresult := hnot.result?_unary
      simp only [UnaryOp.result?] at hresult
      split at hresult
      · rename_i hbool
        exact beq_iff_eq.mp hbool
      · cases hresult
    cases hty.symm.trans hs
    obtain ⟨v, rfl⟩ := List.length_eq_one_iff.mp hlength
    have hv := hkind v List.mem_cons_self
    cases v with
    | bool t => cases t <;> rfl
    | _ => cases hv

/-! ### Passes -/

/-- The result of a rule has the type of the expression, which is the one that its rule gives it. -/
theorem ty_of_turns {rules : List Rule} {e' : Expr} (h : e.Exact n members) (hturns : Rule.Turns rules e e') :
    e'.ty = e.ty ∧ (e'.resolve n).ty = e'.ty := by
  cases hturns with
  | plus note x =>
    exact ⟨(UnaryOp.result?_eq h.result?_unary).symm, (h.of_mem (by simp [children])).1.ruled.self⟩
  | @twice note inner op x hop hty =>
    have hinner := h.of_mem (c := unary inner op e') (by simp [children])
    exact ⟨hty, (hinner.of_mem (by simp [children])).1.ruled.self⟩
  | @negated scope hrule note inner op a b hallowed =>
    have hinner := h.of_mem (c := binary inner (.compare op) a b) (by simp [children])
    have ha := (hinner.of_mem (c := a) (by simp [children])).1.ruled.self
    have hb := (hinner.of_mem (c := b) (by simp [children])).1.ruled.self
    refine ⟨rfl, ?_⟩
    rw [ty_resolve_binary, ha, hb, CompareOp.result?_negated, hinner.result?_binary]
    exact (UnaryOp.result?_eq h.result?_unary).symm
  | turned note inner c a b =>
    have hself := h.1.ruled.self
    refine ⟨rfl, ?_⟩
    rw [ty_resolve_ternary] at hself ⊢
    refine Eq.trans ?_ hself
    by_cases hab : (a.resolve n).ty = (b.resolve n).ty
    · simp [hab]
    · simp [hab, Ne.symm hab]
  | left hb hty | right ha hty => exact ⟨hty, (h.of_mem (by simp [children])).1.ruled.self⟩
  | @minus note a b ha hty =>
    obtain ⟨s, -, rsh, -, hb, hs, -⟩ :=
      ArithOp.IsField.operands (show ArithOp.sub.IsField from .inr (.inl rfl)) h.result?_binary (by simp)
    refine ⟨hty, ?_⟩
    rw [ty_resolve_unary, (h.of_mem (c := b) (by simp [children])).1.ruled.self]
    show _ = b.ty
    rw [hb]
    cases s <;> first | rfl | exact absurd rfl hs

/-- Rules keep values, and whether there are any. -/
theorem turns (hlookup : Respects n lookup) {rules : List Rule} {e' : Expr} (h : e.Exact n members)
    (hturns : Rule.Turns rules e e') :
    e'.Exact n members ∧ e'.ty = e.ty ∧ e'.eval? lookup = e.eval? lookup := by
  obtain ⟨hty, hself⟩ := h.ty_of_turns hturns
  have hnodes : ∀ x ∈ e'.nodes, (x.ty.isError = false ∧ x.ty.Proper ∧ (x.resolve n).ty = x.ty ∧
      x.NodeAccepted members) ∧ (x.ty.isFloat = true → x.ty.isArray = true) := by
    refine hturns.forall_nodes (fun x hx => ⟨h.1 x hx, h.2 x hx⟩) fun hnew => ?_
    obtain ⟨herror, hproper, -, -⟩ := h.1 e (mem_nodes_self e)
    rw [hself, hty]
    refine ⟨⟨herror, hproper, rfl, ?_⟩, h.2 e (mem_nodes_self e)⟩
    cases e' with
    | unary | binary | ternary => trivial
    | _ => cases hnew
  refine ⟨⟨fun x hx => (hnodes x hx).1, fun x hx => (hnodes x hx).2⟩, hty, ?_⟩
  cases hturns with
  | plus note x => exact (eval?_plus note e').symm
  | twice inner hop hty => exact (eval?_twice hlookup h hop).symm
  | negated hrule note inner b hallowed => exact eval?_negated hlookup _ h
  | turned note inner c a b => exact eval?_turned hlookup h
  | left hb hty => exact (eval?_left hlookup h hb hty).symm
  | right ha hty => exact (eval?_right hlookup h ha hty).symm
  | @minus note a b ha hty =>
    have hvalue := (h.of_mem (c := a) (by simp [children])).eval?_of_isZero hlookup ha
    rw [eval?_neutral_left hlookup h (.inr (.inl rfl)) hty hvalue
      (fun c hb hf => (Constant.binary?_zero hb hf).2.2.2) (by simp), eval?]
    rfl

theorem evalAll?_map {es : List Expr} (h : ∀ e ∈ es, (f e).eval? lookup = e.eval? lookup) :
    evalAll? lookup (es.map f) = evalAll? lookup es := by
  induction es with
  | nil => rfl
  | cons e es ih =>
    rw [List.map_cons, evalAll?, evalAll?, h e List.mem_cons_self, ih fun x hx => h x (List.mem_cons_of_mem e hx)]

/-- Evaluation looks at the values and types of operands only. -/
theorem eval?_mapVisited (hf : ∀ c ∈ e.visited, (f c).ty = c.ty ∧ (f c).eval? lookup = c.eval? lookup) :
    (e.mapVisited f).eval? lookup = e.eval? lookup := by
  cases e with
  | lit note value | var note name | assign note op a b | field note a name => rfl
  | unary note op a =>
    rw [mapVisited, eval?, eval?, (hf a (by simp [visited, children])).2]
  | binary note op a b =>
    obtain ⟨hta, ha⟩ := hf a (by simp [visited, children])
    obtain ⟨htb, hb⟩ := hf b (by simp [visited, children])
    rw [mapVisited, eval?, eval?, hta, htb, ha, hb]
  | ternary note c a b =>
    rw [mapVisited, eval?, eval?, (hf c (by simp [visited, children])).2, (hf a (by simp [visited, children])).2,
      (hf b (by simp [visited, children])).2]
  | call note callee args =>
    cases callee with
    | constructor ty =>
      have hargs : ∀ a ∈ args, (f a).eval? lookup = a.eval? lookup := fun a ha => (hf a ha).2
      rw [mapVisited, eval?, eval?, evalAll?_map hargs, List.length_map]
      simp
    | _ => rfl
  | swizzle note a set ks => rw [mapVisited, eval?, eval?, (hf a (by simp [visited, children])).2]
  | index note a b =>
    obtain ⟨hta, ha⟩ := hf a (by simp [visited, children])
    rw [mapVisited, eval?, eval?, hta, ha, (hf b (by simp [visited, children])).2]
  | seq note es =>
    rw [mapVisited, eval?, eval?, evalLast?_eq, evalLast?_eq, List.getLast?_map]
    cases hlast : es.getLast? with
    | none => rfl
    | some e => exact (hf e (List.mem_of_getLast? hlast)).2

theorem nodeAccepted_mapVisited (hf : ∀ c ∈ e.visited, (f c).ty = c.ty)
    (h : e.NodeAccepted members) : (e.mapVisited f).NodeAccepted members := by
  cases e with
  | call note callee args =>
    cases callee with
    | constructor ty =>
      have htypes : (args.map f).map Expr.ty = args.map Expr.ty := by
        rw [List.map_map]
        exact List.map_congr_left hf
      show Ty.constructorProblem? _ ((args.map f).map Expr.ty) _ = none
      rw [htypes]
      exact h
    | _ => trivial
  | swizzle note a set ks => exact h
  | _ => trivial

/-- **Passes keep values, and whether there are any.** -/
theorem preserves (hlookup : Respects n lookup) (rules : List Rule) : Optimize.Preserves rules (Exact n members)
    fun e e' => e'.ty = e.ty ∧ e'.eval? lookup = e.eval? lookup where
  refl _ := ⟨rfl, rfl⟩
  trans h h' := ⟨h'.1.trans h.1, h'.2.trans h.2⟩
  turns h hturns := h.turns hlookup hturns
  child {e _} h hc := h.of_mem (e.visited_subset_children hc)
  visited {e f} h hf := by
    have hruled := h.1.ruled.mapVisited fun c hc => ⟨(hf c hc).1.1.ruled, (hf c hc).2.1⟩
    obtain ⟨⟨herror, hproper, -, haccepted⟩, hchildren⟩ := forall_mem_nodes.mp h.1
    obtain ⟨hfloat, hfloats⟩ := forall_mem_nodes.mp h.2
    have haccepted := nodeAccepted_mapVisited (fun c hc => (hf c hc).2.1) haccepted
    rw [← e.ty_mapVisited f] at herror hproper hfloat
    refine ⟨⟨?_, ?_⟩, e.ty_mapVisited f, eval?_mapVisited fun c hc => (hf c hc).2⟩
    · exact forall_mem_nodes.mpr ⟨⟨herror, hproper, hruled.self, haccepted⟩,
        forall_children_mapVisited hchildren fun c hc => (hf c hc).1.1⟩
    · exact forall_mem_nodes.mpr ⟨hfloat, forall_children_mapVisited hfloats fun c hc => (hf c hc).1.2⟩

/-- **Optimization keeps compile-time integers.**  With any options, a well-typed expression without floating-point
numbers has after optimizing the value that it had before, or still has none. -/
theorem eval?_optimized (h : e.Exact n members) (hlookup : Respects n lookup) (o : OptimizerOptions) :
    ((Optimizer.ofOptions o).expr e).1.eval? lookup = e.eval? lookup :=
  ((preserves hlookup _).toFixpoint h _).2.2

/-- `0 - (-k)` becomes `k`. -/
theorem eval?_optimized_signs : let k : Expr := .var ⟨.int, .const, default⟩ "k"
    let zero : Expr := .lit ⟨.int, .const, default⟩ (.int 0)
    let e : Expr := .binary ⟨.int, .const, default⟩ (.arith .sub) zero (.unary ⟨.int, .const, default⟩ .minus k)
    let lookup := fun name => if name = "k" then some [Constant.int 5] else none
    ((Optimizer.ofOptions {}).expr e).1.size = 1 ∧ ((Optimizer.ofOptions {}).expr e).1.eval? lookup = some [.int 5] := by
  intro k zero e lookup
  let symbol : Symbol := ⟨"k", .variable_, .int, .const, none, default⟩
  let n : Names := { version := .es300, symbols := { globals := [symbol] } }
  have hlookup : Respects n lookup := by
    intro name x hx vs hvs
    simp only [lookup] at hvs
    split at hvs
    · rename_i hname
      subst hname
      have hsymbol : n.symbols.find? "k" = some symbol := by decide +kernel
      obtain rfl := Option.some.inj hvs
      obtain rfl := Option.some.inj (hsymbol.symm.trans hx)
      exact .singleton rfl
    · cases hvs
  refine ⟨by decide +kernel, ?_⟩
  rw [@eval?_optimized lookup n (fun _ => []) _ ⟨by decide +kernel, by decide +kernel⟩ hlookup {}]
  decide +kernel

end Exact

end Expr

end GlslEs
