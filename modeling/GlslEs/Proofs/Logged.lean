import GlslEs.Logged

/-!
# What is known of values with a log

The value and the log of steps that are done one after the other, in the form in which proofs about
passes use them.
-/

namespace GlslEs

namespace Logged

variable {ε α β : Type}

@[simp] theorem value_quiet (a : α) : (quiet a : Logged ε α).value = a := rfl

@[simp] theorem log_quiet (a : α) : (quiet a : Logged ε α).log = [] := rfl

@[simp] theorem value_noting (e : ε) (a : α) : (noting e a).value = a := rfl

@[simp] theorem log_noting (e : ε) (a : α) : (noting e a).log = [e] := rfl

@[simp] theorem value_andThen (x : Logged ε α) (f : α → Logged ε β) :
    (x.andThen f).value = (f x.value).value := rfl

@[simp] theorem log_andThen (x : Logged ε α) (f : α → Logged ε β) :
    (x.andThen f).log = x.log ++ (f x.value).log := rfl

@[simp] theorem value_bind (x : Logged ε α) (f : α → Logged ε β) :
    (x >>= f).value = (f x.value).value := rfl

@[simp] theorem log_bind (x : Logged ε α) (f : α → Logged ε β) :
    (x >>= f).log = x.log ++ (f x.value).log := rfl

@[simp] theorem value_map (f : α → β) (x : Logged ε α) : (f <$> x).value = f x.value := rfl

@[simp] theorem log_map (f : α → β) (x : Logged ε α) : (f <$> x).log = x.log :=
  List.append_nil x.log

@[simp] theorem value_pure (a : α) : (pure a : Logged ε α).value = a := rfl

@[simp] theorem log_pure (a : α) : (pure a : Logged ε α).log = [] := rfl

theorem eq_quiet {x : Logged ε α} {a : α} (hvalue : x.value = a) (hlog : x.log = []) : x = quiet a := by
  cases x
  subst hvalue hlog
  rfl

@[simp] theorem quiet_bind (a : α) (f : α → Logged ε β) : quiet a >>= f = f a := rfl

@[simp] theorem map_quiet (f : α → β) (a : α) : f <$> (quiet a : Logged ε α) = quiet (f a) := rfl

instance : LawfulMonad (Logged ε) := .mk' (Logged ε)
  (fun x => by cases x; simp [Functor.map, andThen, quiet])
  (fun a f => by simp [bind, pure, andThen, quiet])
  (fun x f g => by simp [bind, andThen])

theorem value_mapM (f : α → Logged ε β) (xs : List α) :
    (xs.mapM f).value = xs.map fun x => (f x).value := by
  induction xs with
  | nil => rfl
  | cons x xs ih =>
    rw [List.mapM_cons]
    simp [ih]

theorem log_mapM (f : α → Logged ε β) (xs : List α) :
    (xs.mapM f).log = xs.flatMap fun x => (f x).log := by
  induction xs with
  | nil => rfl
  | cons x xs ih =>
    rw [List.mapM_cons]
    simp [ih]

theorem mapM_eq_quiet {f : α → Logged ε α} {xs : List α} (h : ∀ x ∈ xs, f x = quiet x) :
    xs.mapM f = quiet xs := by
  induction xs with
  | nil => rfl
  | cons x xs ih =>
    rw [List.mapM_cons, h x List.mem_cons_self, ih fun y hy => h y (List.mem_cons_of_mem x hy)]
    rfl

end Logged

end GlslEs
