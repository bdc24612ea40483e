import Lineage.Proofs.Climb

/-!
# The sequence of superclasses

`h.ascend c n` is the type that lies `n` steps above `c`, as long as the superclasses can be determined
that far.  Nothing is remembered on the way: the sequence of a type below a circle goes round for ever.

Main facts: `ascend_add`, `ascend_of_repeat` (after a repetition nothing new comes up) and
`RepeatsAt.first_own_ancestor` (the first type to come up again is the first one that lies on the
circle).
-/

namespace Lineage.Hierarchy

/-- The type that is reached from `c` by `n` steps to the superclass, if there is one. -/
def ascend (h : Hierarchy) (c : Handle) : Nat → Option Handle
  | 0 => some c
  | n + 1 => (h.ascend c n).bind fun t =>
    match h.superclass t with
    | .ok parent => parent
    | .error _ => none

/-- The sequence of superclasses comes to a root, `t`, after `n` steps. -/
def EndsAt (h : Hierarchy) (c : Handle) (n : Nat) (t : Handle) : Prop :=
  h.ascend c n = some t ∧ h.superclass t = .ok none

/-- The sequence of superclasses comes to a type, `t`, after `n` steps whose superclass is missing. -/
def BreaksAt (h : Hierarchy) (c : Handle) (n : Nat) (t : Handle) (missing : TypeId) : Prop :=
  h.ascend c n = some t ∧ h.superclass t = .error (.missingSuperclass t missing)

/-- After `n` steps the sequence of superclasses comes to a type, `t`, that it came to before, for the
first time. -/
def RepeatsAt (h : Hierarchy) (c : Handle) (n : Nat) (t : Handle) : Prop :=
  h.ascend c n = some t ∧ (∃ i < n, h.ascend c i = some t) ∧
    ∀ j < n, ∀ i < j, h.ascend c i ≠ none → h.ascend c i ≠ h.ascend c j

/-- A type that is reached again from itself. -/
def OwnAncestor (h : Hierarchy) (t : Handle) : Prop :=
  ∃ n > 0, h.ascend t n = some t

variable {h : Hierarchy} {c p t u : Handle} {i j m n : Nat}

/-! ### Steps -/

@[simp] theorem ascend_zero (h : Hierarchy) (c : Handle) : h.ascend c 0 = some c := rfl

theorem ascend_succ_of_ok {parent : Option Handle} (e : h.ascend c n = some t)
    (up : h.superclass t = .ok parent) : h.ascend c (n + 1) = parent := by
  simp [ascend, e, up]

theorem ascend_succ_of_error {err : ResolveError} (e : h.ascend c n = some t)
    (stuck : h.superclass t = .error err) : h.ascend c (n + 1) = none := by
  simp [ascend, e, stuck]

/-- The last step of a way up is one to a superclass. -/
theorem of_ascend_succ (e : h.ascend c (n + 1) = some t) :
    ∃ u, h.ascend c n = some u ∧ h.superclass u = .ok (some t) := by
  rw [ascend, Option.bind_eq_some_iff] at e
  obtain ⟨u, hu, next⟩ := e
  refine ⟨u, hu, ?_⟩
  cases up : h.superclass u with
  | error err =>
    rw [up] at next
    cases next
  | ok parent =>
    rw [up] at next
    rw [show parent = some t from next]

theorem ascend_add (h : Hierarchy) (c : Handle) (m n : Nat) :
    h.ascend c (m + n) = (h.ascend c m).bind (h.ascend · n) := by
  induction n with
  | zero => cases e : h.ascend c m <;> simp
  | succ n ih =>
    rw [← Nat.add_assoc, ascend, ih]
    cases h.ascend c m <;> rfl

theorem ascend_add_of_eq (e : h.ascend c m = some t) (n : Nat) :
    h.ascend c (m + n) = h.ascend t n := by
  rw [ascend_add, e, Option.bind_some]

/-- The sequence above the superclass is the rest of the sequence. -/
theorem ascend_succ' (up : h.superclass c = .ok (some p)) (n : Nat) :
    h.ascend c (n + 1) = h.ascend p n := by
  rw [Nat.add_comm]
  exact ascend_add_of_eq (ascend_succ_of_ok (ascend_zero h c) up) n

/-- What lies below a type of the sequence is there too. -/
theorem ascend_ne_none_of_le (hmn : m ≤ n) (e : h.ascend c n ≠ none) : h.ascend c m ≠ none := by
  intro hm
  apply e
  obtain ⟨k, rfl⟩ := Nat.exists_eq_add_of_le hmn
  rw [ascend_add, hm, Option.bind_none]

/-- The sequence ends only once. -/
theorem eq_of_ascend_last (hm : h.ascend c m ≠ none) (hm' : h.ascend c (m + 1) = none)
    (hn : h.ascend c n ≠ none) (hn' : h.ascend c (n + 1) = none) : m = n := by
  have hmn : ¬ m < n := fun lt => ascend_ne_none_of_le (Nat.succ_le_of_lt lt) hn hm'
  have hnm : ¬ n < m := fun lt => ascend_ne_none_of_le (Nat.succ_le_of_lt lt) hm hn'
  omega

/-! ### Circles -/

/-- After a repetition nothing new comes up. -/
theorem ascend_of_repeat (hjn : j < n) (e : h.ascend c j = h.ascend c n) (hm : j ≤ m) :
    ∃ r, j ≤ r ∧ r < n ∧ h.ascend c m = h.ascend c r := by
  obtain ⟨k, rfl⟩ := Nat.exists_eq_add_of_le hm
  clear hm
  induction k with
  | zero => exact ⟨j, Nat.le_refl j, hjn, rfl⟩
  | succ k ih =>
    obtain ⟨r, hjr, hrn, hr⟩ := ih
    have step : h.ascend c (j + (k + 1)) = h.ascend c (r + 1) := by
      rw [← Nat.add_assoc, ascend, ascend, hr]
    by_cases last : r + 1 = n
    · exact ⟨j, Nat.le_refl j, hjn, by rw [step, last, e]⟩
    · exact ⟨r + 1, by omega, by omega, step⟩

theorem ascend_mul_of_own (e : h.ascend t n = some t) (k : Nat) : h.ascend t (n * k) = some t := by
  induction k with
  | zero => rfl
  | succ k ih => rw [Nat.mul_succ, ascend_add_of_eq ih, e]

theorem RepeatsAt.ascend_ne_none (hr : h.RepeatsAt c n t) (m : Nat) : h.ascend c m ≠ none := by
  obtain ⟨hn, ⟨j, hj, hjt⟩, -⟩ := hr
  have below {r : Nat} (hrn : r ≤ n) : h.ascend c r ≠ none :=
    ascend_ne_none_of_le hrn (by simp [hn])
  by_cases hm : m ≤ n
  · exact below hm
  · obtain ⟨r, -, hrn, e⟩ := ascend_of_repeat hj (hjt.trans hn.symm) (show j ≤ m by omega)
    rw [e]
    exact below (Nat.le_of_lt hrn)

/-- The type that comes up again is its own ancestor, and none of those before its first appearance
is: from such a one the sequence would come back to it, within the circle, before it repeats. -/
theorem RepeatsAt.first_own_ancestor (hr : h.RepeatsAt c n t) :
    ∃ j, h.ascend c j = some t ∧ h.OwnAncestor t ∧
      ∀ i < j, ∀ u, h.ascend c i = some u → ¬ h.OwnAncestor u := by
  obtain ⟨hn, ⟨j, hj, hjt⟩, least⟩ := hr
  refine ⟨j, hjt, ⟨n - j, by omega, ?_⟩, ?_⟩
  · rw [← ascend_add_of_eq hjt, Nat.add_sub_of_le (Nat.le_of_lt hj), hn]
  · rintro i hi u hu ⟨k, hk, own⟩
    -- `u` lies on a circle of length `k`, so after enough rounds it comes up again past `j`
    have far : j ≤ i + k * j := Nat.le_trans (Nat.le_mul_of_pos_left j hk) (Nat.le_add_left _ _)
    obtain ⟨r, hjr, hrn, e⟩ := ascend_of_repeat hj (hjt.trans hn.symm) far
    rw [ascend_add_of_eq hu, ascend_mul_of_own own] at e
    exact least r hrn i (by omega) (by simp [hu]) (hu.trans e)

theorem RepeatsAt.eq_of_own_ancestor (hr : h.RepeatsAt c n t) (own : h.OwnAncestor c) : t = c := by
  obtain ⟨j, hj, -, before⟩ := hr.first_own_ancestor
  cases j with
  | zero => exact (Option.some.inj hj).symm
  | succ j => exact absurd own (before 0 (Nat.succ_pos j) c rfl)

/-- A sequence repeats for the first time only once. -/
theorem RepeatsAt.unique (hm : h.RepeatsAt c m t) (hn : h.RepeatsAt c n u) : t = u := by
  obtain ⟨htm, ⟨i, hi, hit⟩, hleast⟩ := hm
  obtain ⟨htn, ⟨j, hj, hju⟩, hleast'⟩ := hn
  have hmn : ¬ m < n := fun lt => hleast' m lt i hi (by simp [hit]) (hit.trans htm.symm)
  have hnm : ¬ n < m := fun lt => hleast n lt j hj (by simp [hju]) (hju.trans htn.symm)
  obtain rfl : m = n := by omega
  exact Option.some.inj (htm.symm.trans htn)

/-! ### Three kinds of sequences -/

theorem EndsAt.last (hn : h.EndsAt c n t) :
    h.ascend c n ≠ none ∧ h.ascend c (n + 1) = none :=
  ⟨by simp [hn.1], ascend_succ_of_ok hn.1 hn.2⟩

theorem BreaksAt.last {id : TypeId} (hn : h.BreaksAt c n t id) :
    h.ascend c n ≠ none ∧ h.ascend c (n + 1) = none :=
  ⟨by simp [hn.1], ascend_succ_of_error hn.1 hn.2⟩

theorem EndsAt.unique (hm : h.EndsAt c m t) (hn : h.EndsAt c n u) : m = n :=
  eq_of_ascend_last hm.last.1 hm.last.2 hn.last.1 hn.last.2

/-- A sequence that ends at a root does not break off. -/
theorem EndsAt.not_breaksAt {id : TypeId} (hm : h.EndsAt c m t) : ¬ h.BreaksAt c n u id := by
  intro hn
  obtain rfl := eq_of_ascend_last hm.last.1 hm.last.2 hn.last.1 hn.last.2
  obtain rfl := Option.some.inj (hm.1.symm.trans hn.1)
  cases hm.2.symm.trans hn.2

theorem EndsAt.not_repeatsAt (hm : h.EndsAt c m t) : ¬ h.RepeatsAt c n u :=
  fun hn => hn.ascend_ne_none (m + 1) hm.last.2

theorem BreaksAt.not_repeatsAt {id : TypeId} (hm : h.BreaksAt c m t id) : ¬ h.RepeatsAt c n u :=
  fun hn => hn.ascend_ne_none (m + 1) hm.last.2

theorem BreaksAt.unique {id id' : TypeId} (hm : h.BreaksAt c m t id) (hn : h.BreaksAt c n u id') :
    t = u ∧ id = id' := by
  obtain rfl := eq_of_ascend_last hm.last.1 hm.last.2 hn.last.1 hn.last.2
  obtain rfl := Option.some.inj (hm.1.symm.trans hn.1)
  cases hm.2.symm.trans hn.2
  exact ⟨rfl, rfl⟩

end Lineage.Hierarchy
