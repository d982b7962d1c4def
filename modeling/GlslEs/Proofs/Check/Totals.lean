import GlslEs.Proofs.Check.Local
import GlslEs.Proofs.Check.Silent
import GlslEs.Proofs.Layout.Exact
import GlslEs.Proofs.Layout.Order

/-!
# Exceeded totals

The running totals of a shader are compared with their limits after every variable or block that is
counted, and a limit that is exceeded is reported once.  Sizes and totals stop at the largest one of 64
bits, and the limits are signed, so that every limit is smaller.  Hence the reports are those of the
exact totals.

* `Share`: what one variable or block takes of a resource.
* `Shader.shares`: what a shader takes of a resource, in exact numbers and in source order.
* `Finding.filter_withoutRepeats`: of all findings about one topic the first is reported.
* `Context.map_loc_checkLoads`: a total is found to exceed its limit where the exact total does.
* `Shader.exceeded_exactly`: **a limit is reported exactly if an exact total exceeds it, once, and at the
  first variable or block with which it does**.
-/

namespace GlslEs

/-! ### What is reported once -/

namespace Finding

/-- Whether a finding is about a bound that is exceeded. -/
def isAbout (b : Bound) (f : Finding) : Bool := f.topic? = some (.bound b)

theorem isAbout_iff {b : Bound} {f : Finding} :
    f.isAbout b = true ↔ ∃ amount value, f.problem = .exceeds amount b value := by
  unfold isAbout topic?
  cases f.problem <;> simp

/-- Limits are exceeded by what is about a bound. -/
theorem code_report_eq_limitExceeded_iff {f : Finding} :
    f.report.code = .limitExceeded ↔ ∃ b, f.isAbout b = true := by
  obtain ⟨problem, loc⟩ := f
  simp only [isAbout_iff]
  constructor
  · intro h
    cases problem with
    | exceeds amount b value => exact ⟨b, amount, value, rfl⟩
    | loop p => cases p <;> cases h
    | _ => cases h
  · rintro ⟨b, amount, value, rfl⟩
    rfl

/-- Of all findings about one topic the first is reported, unless the topic has been reported. -/
theorem filter_withoutRepeats (t : Topic) (reported : List Topic) (fs : List Finding) :
    (withoutRepeats reported fs).filter (fun f => f.topic? = some t) =
      if t ∈ reported then [] else (fs.filter fun f => f.topic? = some t).take 1 := by
  induction fs generalizing reported with
  | nil => simp [withoutRepeats]
  | cons f fs ih =>
    unfold withoutRepeats
    cases htopic : f.topic? with
    | none => simp [htopic, ih]
    | some u =>
      by_cases hu : u = t
      · subst hu
        by_cases hreported : u ∈ reported <;> simp [htopic, hreported, ih]
      · by_cases hreported : u ∈ reported <;> simp [htopic, hreported, hu, Ne.symm hu, ih]

end Finding

/-! ### Exact totals -/

/-- What one variable or block takes of a resource, and where it is. -/
structure Share where
  amount : Nat
  loc : Location

namespace Share

/-- What several variables and blocks take. -/
def total (xs : List Share) : Nat := (xs.map (·.amount)).sum

theorem total_cons (x : Share) (xs : List Share) : total (x :: xs) = x.amount + total xs := by
  simp [total]

/-- The places with which a total exceeds a limit, given what has been counted before. -/
def overs (limit : Int) : Nat → List Share → List Location
  | _, [] => []
  | before, x :: xs =>
    (if limit < (before + x.amount : Nat) then [x.loc] else []) ++ overs limit (before + x.amount) xs

/-- The total exceeds a limit with the share at a place, and with none in front of it. -/
def IsFirstOver (limit : Int) (xs : List Share) (loc : Location) : Prop :=
  ∃ front x behind, xs = front ++ x :: behind ∧ x.loc = loc ∧ limit < total (front ++ [x]) ∧
    ∀ p, p <+: front → p ≠ [] → total p ≤ limit

variable {limit : Int} {before : Nat} {xs : List Share} {loc : Location}

theorem overs_eq_nil_iff :
    overs limit before xs = [] ↔ ∀ p, p <+: xs → p ≠ [] → (before + total p : Nat) ≤ limit := by
  induction xs generalizing before with
  | nil => simp [overs]
  | cons x xs ih =>
    simp only [overs, List.append_eq_nil_iff, ih, ite_eq_right_iff, List.cons_ne_nil, imp_false,
      Int.not_lt]
    constructor
    · rintro ⟨hx, hxs⟩ p hp hne
      obtain ⟨y, p, rfl⟩ := List.exists_cons_of_ne_nil hne
      obtain ⟨rfl, hprefix⟩ := List.cons_prefix_cons.mp hp
      rw [total_cons, ← Nat.add_assoc]
      by_cases hnil : p = []
      · simpa [hnil, total] using hx
      · exact hxs p hprefix hnil
    · intro h
      refine ⟨by simpa [total] using h [x] (by simp) (by simp), fun p hp _ => ?_⟩
      have := h (x :: p) (List.cons_prefix_cons.mpr ⟨rfl, hp⟩) (by simp)
      rwa [total_cons, ← Nat.add_assoc] at this

/-- The first place is where a total exceeds the limit for the first time. -/
theorem exists_of_head?_overs (h : (overs limit before xs).head? = some loc) :
    ∃ front x behind, xs = front ++ x :: behind ∧ x.loc = loc ∧
      limit < (before + total (front ++ [x]) : Nat) ∧ overs limit before front = [] := by
  induction xs generalizing before with
  | nil => cases h
  | cons x xs ih =>
    by_cases hx : limit < (before + x.amount : Nat)
    · rw [overs, if_pos hx] at h
      exact ⟨[], x, xs, rfl, by simpa using h, by simpa [total] using hx, rfl⟩
    · rw [overs, if_neg hx] at h
      obtain ⟨front, y, behind, rfl, hy, hover, hfront⟩ := ih h
      refine ⟨x :: front, y, behind, rfl, hy, ?_, ?_⟩
      · rwa [List.cons_append, total_cons, ← Nat.add_assoc]
      · rw [overs, if_neg hx, hfront, List.append_nil]

theorem isFirstOver_of_head? (h : (overs limit 0 xs).head? = some loc) : IsFirstOver limit xs loc := by
  obtain ⟨front, x, behind, hxs, hx, hover, hfront⟩ := exists_of_head?_overs h
  rw [Nat.zero_add] at hover
  refine ⟨front, x, behind, hxs, hx, hover, fun p hp hne => ?_⟩
  have := overs_eq_nil_iff.mp hfront p hp hne
  rwa [Nat.zero_add] at this

/-- Two shares at one place that agree up to the largest size. -/
def Agrees (x y : Share) : Prop := Size.clamp x.amount = Size.clamp y.amount ∧ x.loc = y.loc

end Share

/-! ### Totals of resources -/

namespace Resource

variable {t : MemberTable} {stage : Stage} {r : Resource}

/-- Whether a global variable counts towards a total. -/
def counts (stage : Stage) (storage : Option Storage) (ty : Ty) : Resource → Bool
  | .samplers => storage = some .uniform && 0 < ty.samplerCount
  | .uniforms => storage = some .uniform && ty.samplerCount = 0
  | .uniformLocations => storage = some .uniform
  | .uniformBlocks => false
  | .vertexInputs => storage = some .vertexAttribute || (storage = some .input && stage = .vertex)
  | .varyings => storage = some .varying
  | .vertexOutputs => storage = some .output && stage = .vertex
  | .fragmentInputs => storage = some .input && stage = .fragment

/-- What a global variable takes: the uniforms of compute shaders are counted in components, of which a
slot has four. -/
def taken (h : t.Acyclic) (stage : Stage) (ty : Ty) : Resource → Nat
  | .samplers => ty.samplerCount
  | .uniforms => if stage = .compute then h.slots ty * 4 else h.slots ty
  | .uniformLocations => h.locations ty
  | .uniformBlocks => 0
  | .vertexInputs | .varyings | .vertexOutputs | .fragmentInputs => h.slots ty

theorem bound_injective {r' : Resource} (h : r.bound stage = r'.bound stage) : r = r' := by
  cases stage <;> cases r <;> cases r' <;> first | rfl | cases h

theorem isLocal_bound (stage : Stage) (r : Resource) : (r.bound stage).isLocal = false := by
  cases stage <;> cases r <;> rfl

theorem bound_ne (stage : Stage) (r : Resource) :
    r.bound stage ≠ .maxUniformBlockSize ∧ r.bound stage ≠ .maxDrawBuffers ∧
      r.bound stage ≠ .maxCallStackDepth := by
  cases stage <;> cases r <;> decide

theorem clamp_measure_congr {a a' b b' : Nat} (ha : Size.clamp (r.measure stage a) = Size.clamp a')
    (hb : Size.clamp (r.measure stage b) = Size.clamp b') :
    Size.clamp (r.measure stage (Size.add a b)) = Size.clamp (a' + b') := by
  unfold measure at *
  split at ha
  · rename_i hr
    rw [if_pos hr] at hb ⊢
    have hsum : Size.clamp (Size.add a b) = Size.clamp (a + b) := Size.clamp_add rfl rfl
    rw [Size.clamp_mul rfl] at ha hb
    rw [Size.clamp_mul hsum, Nat.add_mul]
    exact Size.clamp_add_congr ha hb
  · rename_i hr
    rw [if_neg hr] at hb ⊢
    exact Size.clamp_add ha hb

/-- How much a global variable adds to a total, before it is measured. -/
def added (t : MemberTable) (ty : Ty) : Resource → Nat
  | .samplers => ty.samplerCount
  | .uniformLocations => t.locations ty
  | _ => t.slots ty

theorem clamp_measure_added (h : t.Acyclic) (hr : r ≠ .uniformBlocks) (ty : Ty) :
    Size.clamp (r.measure stage (r.added t ty)) = Size.clamp (r.taken h stage ty) := by
  cases r with
  | uniforms =>
    cases stage with
    | compute => exact Size.clamp_mul (h.clamp_slots ty) 4
    | vertex | fragment => exact h.clamp_slots ty
  | samplers => rfl
  | uniformLocations => exact h.clamp_locations ty
  | uniformBlocks => exact absurd rfl hr
  | vertexInputs | varyings | vertexOutputs | fragmentInputs => exact h.clamp_slots ty

end Resource

/-- What a load adds to a total, in the units of its bound. -/
def Load.share? (stage : Stage) (r : Resource) : Load → Option Share
  | .add r' count loc => if r' = r then some ⟨r.measure stage count, loc⟩ else none
  | _ => none

namespace Context

variable {c : Context}

theorem filter_exceeding (b b' : Bound) (n : Int) (amount : Amount) (loc : Location) :
    (c.exceeding b' n amount loc).filter (Finding.isAbout b) =
      if b' = b then c.exceeding b' n amount loc else [] := by
  unfold exceeding findIf
  by_cases hb : b' = b <;> split <;> simp [Finding.isAbout, Finding.topic?, hb]

theorem map_loc_exceeding (b : Bound) (n : Int) (amount : Amount) (loc : Location) :
    (c.exceeding b n amount loc).map (·.loc) = if c.limits.bound b < n then [loc] else [] := by
  unfold exceeding findIf
  by_cases h : c.limits.bound b < n <;> simp [h]

/-- A total is found to exceed its limit where the exact total does; `before` is the exact total so
far. -/
theorem map_loc_checkLoads {r : Resource} {t : Totals} {ls : List Load} {before : Nat} {xs : List Share}
    (hlimit : c.limits.bound (r.bound c.stage) < Size.largest)
    (hbefore : Size.clamp (r.measure c.stage (t r)) = Size.clamp before)
    (hxs : List.Forall₂ Share.Agrees (ls.filterMap (Load.share? c.stage r)) xs) :
    ((c.checkLoads t ls).filter (Finding.isAbout (r.bound c.stage))).map (·.loc) =
      Share.overs (c.limits.bound (r.bound c.stage)) before xs := by
  induction ls generalizing t before xs with
  | nil =>
    cases hxs
    rfl
  | cons l ls ih =>
    rw [checkLoads, List.filter_append, List.map_append]
    -- a load that does not count towards this total
    have hother : l.share? c.stage r = none → t.after l r = t r →
        (c.checkLoad (t.after l) l).filter (Finding.isAbout (r.bound c.stage)) = [] →
        ((c.checkLoad (t.after l) l).filter (Finding.isAbout (r.bound c.stage))).map (·.loc) ++
          ((c.checkLoads (t.after l) ls).filter (Finding.isAbout (r.bound c.stage))).map (·.loc) =
        Share.overs (c.limits.bound (r.bound c.stage)) before xs := by
      intro hnone hsame hnothing
      rw [List.filterMap_cons_none hnone] at hxs
      rw [hnothing]
      exact ih (by rwa [hsame]) hxs
    cases l with
    | add r' count loc =>
      by_cases hr : r' = r
      · subst hr
        rw [List.filterMap_cons_some (by simp [Load.share?]; rfl)] at hxs
        obtain ⟨y, ys, ⟨hamount, hloc⟩, hys, rfl⟩ := List.forall₂_cons_left_iff.mp hxs
        have hafter : t.after (.add r' count loc) r' = Size.add (t r') count := if_pos rfl
        have htotal := Resource.clamp_measure_congr hbefore hamount
        rw [← hafter] at htotal
        rw [Share.overs, ih htotal hys]
        congr 1
        have hover := Size.lt_iff_of_clamp_eq htotal hlimit
        unfold checkLoad
        dsimp only
        rw [filter_exceeding, if_pos rfl, map_loc_exceeding]
        simp only [hover, ← hloc]
      · refine hother (by simp [Load.share?, hr]) (if_neg (Ne.symm hr)) ?_
        exact (filter_exceeding ..).trans (if_neg fun h => hr (Resource.bound_injective h))
    | blockSize block size loc =>
      exact hother rfl rfl ((filter_exceeding ..).trans (if_neg (r.bound_ne c.stage).1.symm))
    | fragmentOutputs name count loc =>
      exact hother rfl rfl ((filter_exceeding ..).trans (if_neg (r.bound_ne c.stage).2.1.symm))

/-! ### Declarations -/

/-- A global variable adds to the totals that it counts towards. -/
theorem filterMap_share?_variableLoads (q : TypeQualifiers) (x : Declarator) (r : Resource) :
    (c.variableLoads q x).filterMap (Load.share? c.stage r) =
      if r.counts c.stage q.storage x.ty then
        [⟨r.measure c.stage (r.added c.structs x.ty), x.loc⟩] else [] := by
  unfold variableLoads uniformLoads Resource.counts Resource.added
  generalize q.storage = storage
  generalize c.stage = stage
  generalize x.ty.samplerCount = count
  rcases storage with _ | storage
  · cases r <;> rfl
  · cases storage <;> cases stage <;> cases r <;> cases count <;> rfl

/-- The number of blocks in an array of blocks. -/
def blockCount (c : Context) (b : InterfaceBlock) : Nat :=
  match b.array with
  | some (.sized e) => ((c.evalInt? e).map fun n => (max n 1).toNat).getD 1
  | _ => 1

theorem filterMap_share?_blockLoads (b : InterfaceBlock) (r : Resource) :
    (c.blockLoads b).filterMap (Load.share? c.stage r) =
      if b.qualifiers.storage = some .uniform ∧ r = .uniformBlocks then [⟨c.blockCount b, b.loc⟩] else [] := by
  unfold blockLoads blockCount
  by_cases hstorage : b.qualifiers.storage = some .uniform
  · rw [if_pos hstorage]
    cases r with
    | uniformBlocks => rcases b.array with _ | _ | e <;> simp [Load.share?, Resource.measure, hstorage]
    | _ => simp [Load.share?]
  · simp [hstorage]

end Context

/-- What a declaration takes of a resource, where `c` knows the lengths of arrays of blocks. -/
def TopLevel.shares {t : MemberTable} (h : t.Acyclic) (c : Context) (r : Resource) :
    TopLevel → List Share
  | .globals d =>
    (d.declarators.filter fun x => !x.ty.isError && r.counts c.stage d.qualifiers.storage x.ty).map
      fun x => ⟨r.taken h c.stage x.ty, x.loc⟩
  | .block b =>
    if b.qualifiers.storage = some .uniform ∧ r = .uniformBlocks then [⟨c.blockCount b, b.loc⟩] else []
  | _ => []

namespace Shader

variable {s : Shader} {stage : Stage} {limits : Limits}

/-- What is known behind the declarations of a shader. -/
def lastContext (s : Shader) (stage : Stage) (limits : Limits) : Context :=
  (Context.ofShader s stage limits).afterTopLevels s.declarations

/-- What the declarations of a shader take of a resource, in source order. -/
def shares (s : Shader) (h : s.memberTable.Acyclic) (stage : Stage) (limits : Limits) (r : Resource) :
    List Share :=
  s.declarations.flatMap (TopLevel.shares h (s.lastContext stage limits) r)

end Shader

namespace Context

variable {c : Context} {t : MemberTable}

theorem agrees_variables (h : t.Acyclic) (ht : c.structs = t) (q : TypeQualifiers) (xs : List Declarator)
    (r : Resource) :
    List.Forall₂ Share.Agrees
      (((xs.filter (!·.ty.isError)).flatMap (c.variableLoads q)).filterMap (Load.share? c.stage r))
      ((xs.filter fun x => !x.ty.isError && r.counts c.stage q.storage x.ty).map
        fun x => ⟨r.taken h c.stage x.ty, x.loc⟩) := by
  induction xs with
  | nil => exact .nil
  | cons x xs ih =>
    cases herror : x.ty.isError with
    | true => simpa [herror] using ih
    | false =>
      rw [List.filter_cons_of_pos (by simp [herror]), List.flatMap_cons, List.filterMap_append,
        filterMap_share?_variableLoads]
      cases hcounts : r.counts c.stage q.storage x.ty with
      | false => simpa [herror, hcounts] using ih
      | true =>
        have hr : r ≠ .uniformBlocks := by
          rintro rfl
          cases hcounts
        rw [List.filter_cons_of_pos (by simp [herror, hcounts]), ht]
        exact .cons ⟨Resource.clamp_measure_added h hr x.ty, rfl⟩ ih

/-- The loads of a shader agree with what its declarations take. -/
theorem agrees_loads (h : t.Acyclic) (ht : c.structs = t) (s : Shader) (r : Resource) :
    List.Forall₂ Share.Agrees ((c.loads s).filterMap (Load.share? c.stage r))
      (s.declarations.flatMap (TopLevel.shares h c r)) := by
  unfold loads
  induction s.declarations with
  | nil => exact .nil
  | cons d ds ih =>
    rw [List.flatMap_cons, List.flatMap_cons, List.filterMap_append]
    refine List.rel_append ?_ ih
    cases d with
    | globals d => exact agrees_variables h ht d.qualifiers d.declarators r
    | block b =>
      rw [filterMap_share?_blockLoads]
      exact List.forall₂_same.mpr fun x _ => ⟨rfl, rfl⟩
    | precision | struct | layout | prototype | function => exact .nil

/-- The only bound in the check of the calls is that on their depth. -/
theorem bound_of_mem_checkCalls {s : Shader} {f : Finding} {amount : Amount} {b : Bound} {value : Int}
    (hf : f ∈ c.checkCalls s) (hproblem : f.problem = .exceeds amount b value) : b = .maxCallStackDepth := by
  unfold checkCalls at hf
  rcases List.mem_append.mp hf with hf | hf
  · obtain ⟨name, -, rfl⟩ := List.mem_map.mp hf
    cases hproblem
  · split at hf
    · rw [exceeds_of_mem_exceeding hf] at hproblem
      cases hproblem
      rfl
    · cases hf

/-- Two places with the same stage, limits and structures. -/
def SameTarget (a b : Context) : Prop := a.stage = b.stage ∧ a.limits = b.limits ∧ a.structs = b.structs

theorem sameTarget_afterDeclarators (c : Context) (q : TypeQualifiers) (xs : List Declarator) :
    SameTarget (xs.foldl (·.afterDeclarator q ·) c) c := by
  induction xs generalizing c with
  | nil => exact ⟨rfl, rfl, rfl⟩
  | cons x xs ih => exact ih (c.afterDeclarator q x)

theorem sameTarget_afterTopLevels (c : Context) (ds : List TopLevel) :
    SameTarget (c.afterTopLevels ds) c := by
  unfold afterTopLevels
  induction ds generalizing c with
  | nil => exact ⟨rfl, rfl, rfl⟩
  | cons d ds ih =>
    have hd : SameTarget (c.afterTopLevel d) c := by
      unfold afterTopLevel
      split
      · split <;> exact ⟨rfl, rfl, rfl⟩
      · exact c.sameTarget_afterDeclarators _ _
      · exact ⟨rfl, rfl, rfl⟩
    have hds := ih (c.afterTopLevel d)
    exact ⟨hds.1.trans hd.1, hds.2.1.trans hd.2.1, hds.2.2.trans hd.2.2⟩

end Context

/-! ### Shaders -/

/-- All bounds are signed numbers of 64 bits. -/
def Limits.Fits (l : Limits) : Prop := ∀ b, l.bound b < 0x8000000000000000

theorem Limits.fits_standard : Limits.standard.Fits := by
  intro b
  cases b <;> decide

namespace Shader

variable {s : Shader} {stage : Stage} {limits : Limits}

theorem sameTarget_lastContext (s : Shader) (stage : Stage) (limits : Limits) :
    (s.lastContext stage limits).SameTarget (Context.ofShader s stage limits) :=
  Context.sameTarget_afterTopLevels _ _

/-- What is reported about a shader: of all findings about one bound or extension the first. -/
def reported (s : Shader) (stage : Stage) (limits : Limits) : List Finding :=
  Finding.withoutRepeats [] (s.findings stage limits)

theorem filter_reported (s : Shader) (stage : Stage) (limits : Limits) (b : Bound) :
    (s.reported stage limits).filter (Finding.isAbout b) =
      ((s.findings stage limits).filter (Finding.isAbout b)).take 1 :=
  (Finding.filter_withoutRepeats (.bound b) [] _).trans (if_neg List.not_mem_nil)

/-- The findings about a running total are those of the check of the capacities. -/
theorem filter_findings (s : Shader) (stage : Stage) (limits : Limits) (r : Resource) :
    (s.findings stage limits).filter (Finding.isAbout (r.bound stage)) =
      ((s.lastContext stage limits).checkLoads .zero ((s.lastContext stage limits).loads s)).filter
        (Finding.isAbout (r.bound stage)) := by
  obtain ⟨fs, hlocal, hfindings⟩ := s.exists_findings_eq stage limits
  have hfs : fs.filter (Finding.isAbout (r.bound stage)) = [] := by
    refine List.filter_eq_nil_iff.mpr fun f hf habout => ?_
    obtain ⟨amount, value, hproblem⟩ := Finding.isAbout_iff.mp habout
    have hlocal := hlocal f hf
    rw [hproblem] at hlocal
    exact Bool.false_ne_true ((r.isLocal_bound stage).symm.trans hlocal)
  have hcalls : ((s.lastContext stage limits).checkCalls s).filter (Finding.isAbout (r.bound stage)) = [] := by
    refine List.filter_eq_nil_iff.mpr fun f hf habout => ?_
    obtain ⟨amount, value, hproblem⟩ := Finding.isAbout_iff.mp habout
    have hbound := Context.bound_of_mem_checkCalls hf hproblem
    exact (r.bound_ne stage).2.2 hbound
  rw [hfindings, List.filter_append, List.filter_append, hfs, List.nil_append]
  exact (congrArg _ hcalls).trans (List.append_nil _)

/-- The places where a running total exceeds its limit are those of the exact total. -/
theorem map_loc_findings (s : Shader) (h : s.memberTable.Acyclic) (stage : Stage) (limits : Limits)
    (hlimits : limits.Fits) (r : Resource) :
    ((s.findings stage limits).filter (Finding.isAbout (r.bound stage))).map (·.loc) =
      Share.overs (limits.bound (r.bound stage)) 0 (s.shares h stage limits r) := by
  obtain ⟨hstage, hbounds, hstructs⟩ := s.sameTarget_lastContext stage limits
  have hagrees := Context.agrees_loads h hstructs s r
  have hzero : Size.clamp (r.measure (s.lastContext stage limits).stage (Totals.zero r)) = Size.clamp 0 := by
    unfold Resource.measure
    split <;> rfl
  have hlimit : (s.lastContext stage limits).limits.bound (r.bound (s.lastContext stage limits).stage) <
      Size.largest := by
    rw [hbounds]
    exact Int.lt_trans (hlimits _) (by decide)
  have hplaces := Context.map_loc_checkLoads hlimit hzero hagrees
  rw [hstage, hbounds] at hplaces
  rw [filter_findings]
  exact hplaces

/-- **Exceeded totals.**  If no structure contains itself, a limit on a running total is reported exactly
if the exact total exceeds it with some variable or block that is counted.  The report is at the first
one with which it does, and no limit is reported twice. -/
theorem exceeded_exactly (s : Shader) (h : s.memberTable.Acyclic) (stage : Stage) (limits : Limits)
    (hlimits : limits.Fits) :
    (s.check stage limits = Diagnostic.sort ((s.reported stage limits).map Finding.report) ∧
      ∀ f : Finding, f.report.code = .limitExceeded ↔ ∃ b, f.isAbout b = true) ∧
    (∀ r : Resource,
      ((∃ f ∈ s.reported stage limits, f.isAbout (r.bound stage) = true) ↔
        ∃ p, p <+: s.shares h stage limits r ∧ p ≠ [] ∧ limits.bound (r.bound stage) < Share.total p) ∧
      ∀ f ∈ s.reported stage limits, f.isAbout (r.bound stage) = true →
        Share.IsFirstOver (limits.bound (r.bound stage)) (s.shares h stage limits r) f.report.loc) ∧
    ∀ b, ((s.reported stage limits).filter (Finding.isAbout b)).length ≤ 1 := by
  refine ⟨⟨rfl, fun f => Finding.code_report_eq_limitExceeded_iff⟩, fun r => ?_, fun b => ?_⟩
  · have hplaces : ((s.reported stage limits).filter (Finding.isAbout (r.bound stage))).map (·.loc) =
        (Share.overs (limits.bound (r.bound stage)) 0 (s.shares h stage limits r)).take 1 := by
      rw [filter_reported, List.map_take, s.map_loc_findings h stage limits hlimits r]
    constructor
    · have hnone : (s.reported stage limits).filter (Finding.isAbout (r.bound stage)) = [] ↔
          Share.overs (limits.bound (r.bound stage)) 0 (s.shares h stage limits r) = [] := by
        rw [← List.map_eq_nil_iff, hplaces, List.take_eq_nil_iff]
        simp
      rw [List.filter_eq_nil_iff, Share.overs_eq_nil_iff] at hnone
      simpa [not_imp_comm] using not_congr hnone
    · intro f hf habout
      have hmem : f.loc ∈
          (Share.overs (limits.bound (r.bound stage)) 0 (s.shares h stage limits r)).take 1 :=
        hplaces ▸ List.mem_map_of_mem (List.mem_filter.mpr ⟨hf, habout⟩)
      rw [List.take_one] at hmem
      exact Share.isFirstOver_of_head? (Option.mem_toList.mp hmem)
  · rw [filter_reported]
    exact List.length_take_le 1 _

/-- Arrays of arrays of slots, far beyond 64 bits: the first of them is reported, and not the scalar in
front of it. -/
theorem exceeded_exactly_nestedArrays :
    ∃ (s : Shader) (h : s.memberTable.Acyclic), Limits.standard.Fits ∧
      parse ("struct A{mat4 m[1000000000];};struct B{A a[1000000000];};" ++
        "uniform float x;uniform B b[1000000000],c;void main(){}") .standard = .ok (s, []) ∧
      Share.IsFirstOver 1024 (s.shares h .vertex .standard .uniforms) ⟨1, 84, 83⟩ := by
  obtain ⟨s, hparse, hs⟩ := exists_parse
    ("struct A{mat4 m[1000000000];};struct B{A a[1000000000];};" ++
      "uniform float x;uniform B b[1000000000],c;void main(){}") .standard
    (P := fun s => (s.reported .vertex .standard).any (fun f =>
        f.isAbout .maxVertexUniformVectors && f.loc = ⟨1, 84, 83⟩) &&
      decide (s.declarations.Pairwise fun (d e : TopLevel) =>
        ∀ p ∈ d.head?, ∀ entry ∈ e.listed?, p.result ≠ .struct entry.1))
    (by decide +kernel)
  obtain ⟨hreported, hearly⟩ := Bool.and_eq_true_iff.mp hs
  obtain ⟨f, hf, hfound⟩ := List.any_eq_true.mp hreported
  obtain ⟨habout, hloc⟩ := Bool.and_eq_true_iff.mp hfound
  obtain ⟨known, hdescends⟩ := exists_descends_of_parse hparse (by simp)
  have h : s.memberTable.Acyclic := hdescends.acyclic fun name hname =>
    absurd hname (TopLevel.not_returnedEarly (of_decide_eq_true hearly) name)
  have hfirst := (((s.exceeded_exactly h .vertex .standard Limits.fits_standard).2.1 .uniforms).2 f hf habout)
  have hplace : f.report.loc = ⟨1, 84, 83⟩ := of_decide_eq_true hloc
  exact ⟨s, h, Limits.fits_standard, hparse, hplace ▸ hfirst⟩

end Shader

end GlslEs
