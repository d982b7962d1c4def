import GlslEs.Proofs.Semantics.Sound

/-!
# Places

What can be assigned to is a part of a variable: a path of selections leads from the variable's
value to the part.  Selecting has no result where the part does not exist, as with an index out
of range.

* `Value.select?`, `Value.replace?`: one part of a value, read and replaced.
* `Value.read?`, `Value.write?`: the same along a path.
* `Selector.type?`: the type of a part.
* `Value.read?_hasType`, `Value.write?_hasType`: both respect types.
-/

namespace GlslEs

variable {F : Type}

/-- A step from a value to a part of it. -/
inductive Selector where
  | member (name : String)
  | element (i : Nat)
  | component (i : Nat)
  | column (rows i : Nat)
  | parts (components : List Nat)
deriving DecidableEq, Repr

/-- The selection that an index into a value of some type makes. -/
def Selector.ofIndex? (t : Ty) (i : Nat) : Option Selector :=
  match t with
  | ⟨_, some _⟩ => some (.element i)
  | ⟨.value _ (.vector _), none⟩ => some (.component i)
  | ⟨.value _ (.matrix _ rows), none⟩ => some (.column rows i)
  | _ => none

/-- The members of a structure with the first one of some name replaced. -/
def setMember (name : String) (v : Value F) : List (String × Value F) → List (String × Value F)
  | [] => []
  | (n, w) :: ms => if name == n then (n, v) :: ms else (n, w) :: setMember name v ms

namespace Value

/-- A part of a value. -/
def select? : Selector → Value F → Option (Value F)
  | .member name, .record members => members.lookup name
  | .element i, .array items => items[i]?
  | .component i, .data cs => cs[i]?.map fun c => .data [c]
  | .column rows i, .data cs =>
    if 0 < rows ∧ i * rows + rows ≤ cs.length then some (.data (Datum.column rows i cs)) else none
  | .parts ks, .data cs => (ks.mapM fun k => cs[k]?).map .data
  | _, _ => none

/-- A value with one of its parts replaced. -/
def replace? : Selector → Value F → Value F → Option (Value F)
  | .member name, v, .record members => some (.record (setMember name v members))
  | .element i, v, .array items => some (.array (items.set i v))
  | .component i, .data [c], .data cs => some (.data (cs.set i c))
  | .column rows i, .data ds, .data cs =>
    if 0 < rows ∧ i * rows + rows ≤ cs.length then
      some (.data (cs.take (i * rows) ++ (ds ++ cs.drop (i * rows + rows))))
    else none
  | .parts ks, .data ds, .data cs =>
    some (.data ((ks.zip ds).foldl (fun cs (k, d) => cs.set k d) cs))
  | _, _, _ => none

/-- The part of a value at the end of a path. -/
def read? : List Selector → Value F → Option (Value F)
  | [], v => some v
  | s :: path, v => (v.select? s).bind (read? path)

/-- A value with the part at the end of a path replaced. -/
def write? (v : Value F) : List Selector → Value F → Option (Value F)
  | [], _ => some v
  | s :: path, whole => do
    let part ← whole.select? s
    let part ← write? v path part
    replace? s part whole

end Value

/-! ### Types of parts -/

/-- The type of a member of a structure. -/
def memberType? (structs : List (String × MemberTypes)) (t : Ty) (name : String) : Option Ty :=
  match t with
  | ⟨.struct struct, none⟩ => (structs.lookup struct).bind (·.lookup name)
  | _ => none

/-- The type of a part. -/
def Selector.type? (structs : List (String × MemberTypes)) (t : Ty) : Selector → Option Ty
  | .member name => memberType? structs t name
  | .element _ =>
    match t with
    | ⟨base, some _⟩ => some ⟨base, none⟩
    | _ => none
  | .component _ =>
    match t with
    | ⟨.value s (.vector _), none⟩ => some (.ofScalar s)
    | _ => none
  | .column rows _ =>
    match t with
    | ⟨.value s (.matrix _ rows'), none⟩ => if rows = rows' then some (.vector s rows) else none
    | _ => none
  | .parts ks =>
    match t with
    | ⟨.value s (.vector _), none⟩ => if ks = [] then none else some (.vector s ks.length)
    | _ => none

/-- The type of the part at the end of a path. -/
def pathType? (structs : List (String × MemberTypes)) : Ty → List Selector → Option Ty
  | t, [] => some t
  | t, s :: path => (s.type? structs t).bind (pathType? structs · path)

/-- The selection of an index leads to the type of indexing. -/
theorem Selector.type?_ofIndex? (structs : List (String × MemberTypes)) {t t' : Ty} {i : Nat}
    {s : Selector} (hs : Selector.ofIndex? t i = some s) (ht : t.indexed? = some t') :
    s.type? structs t = some t' := by
  unfold Selector.ofIndex? at hs
  split at hs
  · cases hs
    exact ht
  · cases hs
    exact ht
  · cases hs
    exact (if_pos rfl).trans ht
  · cases hs

theorem pathType?_append (structs : List (String × MemberTypes)) (path : List Selector)
    (s : Selector) (t : Ty) :
    pathType? structs t (path ++ [s]) = (pathType? structs t path).bind (s.type? structs) := by
  induction path generalizing t with
  | nil => simp [pathType?]
  | cons s' path ih =>
    simp only [List.cons_append, pathType?]
    cases s'.type? structs t with
    | none => rfl
    | some t' => exact ih t'

namespace Value

variable {structs : List (String × MemberTypes)} {fields : List (String × Value F)} {members : MemberTypes}
  {name : String} {v : Value F} {t : Ty} {cs : List (Datum F)} {sel : Selector} {path : List Selector}

/-- A member has the type that the table gives for its name: the first field of a name is at the
same position as the first member of that name. -/
theorem lookup_hasType (names : fields.map (·.1) = members.map (·.1))
    (typed : ∀ (i : Nat) (x : String × Value F) (m : String × Ty), fields[i]? = some x →
      members[i]? = some m → HasType structs x.2 m.2)
    (hv : fields.lookup name = some v) (ht : members.lookup name = some t) :
    HasType structs v t := by
  induction fields generalizing members with
  | nil => cases hv
  | cons x fields ih =>
    cases members with
    | nil => cases ht
    | cons m members =>
      obtain ⟨n, x⟩ := x
      obtain ⟨n', m⟩ := m
      simp only [List.map_cons, List.cons.injEq] at names
      obtain ⟨rfl, names⟩ := names
      rw [List.lookup_cons] at hv ht
      split at hv
      · rename_i h
        rw [h] at ht
        cases hv
        cases ht
        exact typed 0 _ _ rfl rfl
      · rename_i h
        rw [h] at ht
        exact ih names (fun i => typed (i + 1)) hv ht

theorem map_fst_setMember (name : String) (v : Value F) (fields : List (String × Value F)) :
    (setMember name v fields).map (·.1) = fields.map (·.1) := by
  induction fields with
  | nil => rfl
  | cons x fields ih =>
    obtain ⟨n, w⟩ := x
    rw [setMember]
    split
    · rfl
    · rw [List.map_cons, List.map_cons, ih]

/-- Replacing a member by a value of its type keeps all members in their types. -/
theorem setMember_hasType (names : fields.map (·.1) = members.map (·.1))
    (typed : ∀ (i : Nat) (x : String × Value F) (m : String × Ty), fields[i]? = some x →
      members[i]? = some m → HasType structs x.2 m.2)
    (ht : members.lookup name = some t) (hv : HasType structs v t) (i : Nat)
    (x : String × Value F) (m : String × Ty) (hx : (setMember name v fields)[i]? = some x)
    (hm : members[i]? = some m) : HasType structs x.2 m.2 := by
  induction fields generalizing members i with
  | nil => cases hx
  | cons y fields ih =>
    cases members with
    | nil => cases ht
    | cons m' members =>
      obtain ⟨n, w⟩ := y
      obtain ⟨n', t'⟩ := m'
      simp only [List.map_cons, List.cons.injEq] at names
      obtain ⟨rfl, names⟩ := names
      rw [List.lookup_cons] at ht
      rw [setMember] at hx
      cases h : name == n with
      | true =>
        simp only [h] at ht hx
        cases ht
        cases i with
        | zero =>
          cases hx
          cases hm
          exact hv
        | succ i => exact typed (i + 1) x m hx hm
      | false =>
        simp only [h] at ht hx
        cases i with
        | zero =>
          cases hx
          cases hm
          exact typed 0 _ _ rfl rfl
        | succ i => exact ih names (fun i => typed (i + 1)) ht i hx hm

theorem memberType?_eq_some {t' : Ty} (h : memberType? structs t name = some t') :
    ∃ struct members, t = ⟨.struct struct, none⟩ ∧ structs.lookup struct = some members ∧
      members.lookup name = some t' := by
  unfold memberType? at h
  split at h
  · obtain ⟨members, hm, h⟩ := Option.bind_eq_some_iff.mp h
    exact ⟨_, members, rfl, hm, h⟩
  · cases h

theorem components_ofSize {n : Nat} (h : 0 < n) : (Shape.ofSize n).components = n := by
  unfold Shape.ofSize
  split
  · have : n = 1 := by omega
    rw [this]
    rfl
  · rfl

/-- The types of vectors from selected parts. -/
theorem vector_hasType {s : Scalar} (hl : 0 < cs.length)
    (hk : ∀ c ∈ cs, c.scalar = s) : HasType structs (.data cs) (.vector s cs.length) :=
  .data (components_ofSize hl).symm hk

/-- **A part has the type of the part.** -/
theorem select?_hasType {w : Value F} {t' : Ty} (hv : HasType structs v t)
    (ht : sel.type? structs t = some t') (hw : v.select? sel = some w) : HasType structs w t' := by
  cases sel with
  | member name =>
    obtain ⟨struct, members, rfl, hm, ht⟩ := memberType?_eq_some ht
    cases hv with
    | record found names typed =>
      rw [hm] at found
      cases found
      exact lookup_hasType names typed hw ht
  | element i =>
    simp only [Selector.type?] at ht
    split at ht
    · cases ht
      obtain ⟨items, rfl, -, typed⟩ := hv.array_of
      exact typed w (List.mem_of_getElem? hw)
    · cases ht
  | component i =>
    simp only [Selector.type?] at ht
    split at ht
    · cases ht
      obtain ⟨cs, rfl, -, kinds⟩ := hv.data_of
      obtain ⟨c, hc, rfl⟩ := Option.map_eq_some_iff.mp hw
      refine .data rfl (fun d hd => ?_)
      rw [List.mem_singleton.mp hd]
      exact kinds c (List.mem_of_getElem? hc)
    · cases ht
  | column rows i =>
    simp only [Selector.type?] at ht
    split at ht
    · split at ht
      · cases ht
        obtain ⟨cs, rfl, -, kinds⟩ := hv.data_of
        rw [select?] at hw
        split at hw
        · rename_i hle
          cases hw
          have hlen : (Datum.column rows i cs).length = rows := by
            rw [Datum.column, List.length_take, List.length_drop]
            omega
          refine .data (hlen.trans (components_ofSize hle.1).symm) (fun c hc => ?_)
          exact kinds c (List.mem_of_mem_drop (List.mem_of_mem_take hc))
        · cases hw
      · cases ht
    · cases ht
  | parts ks =>
    simp only [Selector.type?] at ht
    split at ht
    · split at ht
      · cases ht
      · rename_i hks
        cases ht
        obtain ⟨cs, rfl, -, kinds⟩ := hv.data_of
        obtain ⟨ds, hds, rfl⟩ := Option.map_eq_some_iff.mp hw
        rw [← length_of_mapM hds]
        refine vector_hasType ?_ (fun d hd => ?_)
        · rw [length_of_mapM hds]
          exact List.length_pos_iff.mpr hks
        · obtain ⟨k, -, hk⟩ := exists_of_mem_mapM hds hd
          exact kinds d (List.mem_of_getElem? hk)
    · cases ht

theorem length_foldl_set (ps : List (Nat × Datum F)) (cs : List (Datum F)) :
    (ps.foldl (fun cs (k, d) => cs.set k d) cs).length = cs.length := by
  induction ps generalizing cs with
  | nil => rfl
  | cons p ps ih => rw [List.foldl_cons, ih, List.length_set]

theorem scalar_of_mem_foldl_set {s : Scalar} {ps : List (Nat × Datum F)}
    (hps : ∀ p ∈ ps, p.2.scalar = s) (hcs : ∀ c ∈ cs, c.scalar = s) :
    ∀ c ∈ ps.foldl (fun cs (k, d) => cs.set k d) cs, c.scalar = s := by
  induction ps generalizing cs with
  | nil => exact hcs
  | cons p ps ih =>
    refine ih (fun q hq => hps q (List.mem_cons_of_mem p hq)) (fun c hc => ?_)
    rcases List.mem_or_eq_of_mem_set hc with h | rfl
    · exact hcs c h
    · exact hps p (by simp)

/-- **A value whose part is replaced by another one of the part's type keeps its type.** -/
theorem replace?_hasType {w u : Value F} {t' : Ty}
    (hw : HasType structs w t) (ht : sel.type? structs t = some t') (hv : HasType structs v t')
    (hu : replace? sel v w = some u) : HasType structs u t := by
  cases sel with
  | member name =>
    obtain ⟨struct, members, rfl, hm, ht⟩ := memberType?_eq_some ht
    cases hw with
    | record found names typed =>
      rw [hm] at found
      cases found
      cases hu
      exact .record hm ((map_fst_setMember name v _).trans names)
        (setMember_hasType names typed ht hv)
  | element i =>
    simp only [Selector.type?] at ht
    split at ht
    · cases ht
      obtain ⟨items, rfl, hlen, typed⟩ := hw.array_of
      cases hu
      refine .array (List.length_set.trans hlen) (fun x hx => ?_)
      rcases List.mem_or_eq_of_mem_set hx with h | rfl
      · exact typed x h
      · exact hv
    · cases ht
  | component i =>
    simp only [Selector.type?] at ht
    split at ht
    · cases ht
      obtain ⟨cs, rfl, hlen, kinds⟩ := hw.data_of
      obtain ⟨c, rfl, hc⟩ := hv.single_of
      cases hu
      refine .data (List.length_set.trans hlen) (fun x hx => ?_)
      rcases List.mem_or_eq_of_mem_set hx with h | rfl
      · exact kinds x h
      · exact hc
    · cases ht
  | column rows i =>
    simp only [Selector.type?] at ht
    split at ht
    · split at ht
      · cases ht
        obtain ⟨cs, rfl, hlen, kinds⟩ := hw.data_of
        obtain ⟨ds, rfl, hds, kinds'⟩ := hv.data_of
        rw [replace?] at hu
        split at hu
        · rename_i hle
          cases hu
          have hds : ds.length = rows := hds.trans (components_ofSize hle.1)
          refine .data ?_ (fun c hc => ?_)
          · rw [← hlen]
            simp only [List.length_append, List.length_take, List.length_drop]
            omega
          · rcases List.mem_append.mp hc with h | h
            · exact kinds c (List.mem_of_mem_take h)
            · rcases List.mem_append.mp h with h | h
              · exact kinds' c h
              · exact kinds c (List.mem_of_mem_drop h)
        · cases hu
      · cases ht
    · cases ht
  | parts ks =>
    simp only [Selector.type?] at ht
    split at ht
    · split at ht
      · cases ht
      · cases ht
        obtain ⟨cs, rfl, hlen, kinds⟩ := hw.data_of
        obtain ⟨ds, rfl, -, kinds'⟩ := hv.data_of
        cases hu
        refine .data ((length_foldl_set _ cs).trans hlen) ?_
        exact scalar_of_mem_foldl_set (fun p hp => kinds' p.2 (List.of_mem_zip hp).2) kinds
    · cases ht

/-- What is read along a path has the type at its end. -/
theorem read?_hasType {w : Value F} {t' : Ty}
    (hv : HasType structs v t) (ht : pathType? structs t path = some t')
    (hw : read? path v = some w) : HasType structs w t' := by
  induction path generalizing v t with
  | nil =>
    cases ht
    cases hw
    exact hv
  | cons s path ih =>
    obtain ⟨t1, ht1, ht⟩ := Option.bind_eq_some_iff.mp ht
    obtain ⟨v1, hv1, hw⟩ := Option.bind_eq_some_iff.mp hw
    exact ih (select?_hasType hv ht1 hv1) ht hw

/-- Writing a value of the type at the end of a path keeps the type of the whole. -/
theorem write?_hasType {whole w : Value F} {t' : Ty}
    (hwhole : HasType structs whole t) (ht : pathType? structs t path = some t')
    (hv : HasType structs v t') (hw : write? v path whole = some w) : HasType structs w t := by
  induction path generalizing whole t w with
  | nil =>
    cases ht
    cases hw
    exact hv
  | cons s path ih =>
    obtain ⟨t1, ht1, ht⟩ := Option.bind_eq_some_iff.mp ht
    simp only [write?, Option.bind_eq_bind, Option.bind_eq_some_iff] at hw
    obtain ⟨part, hpart, part', hpart', hw⟩ := hw
    exact replace?_hasType hwhole ht1 (ih (select?_hasType hwhole ht1 hpart) ht hpart') hw

end Value

end GlslEs
