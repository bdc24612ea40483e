import Lineage.Hierarchy.Error

/-!
# Failures of computations

Answers are computed in `Except ResolveError`, one computation after the other.  `FailsIn p x` says
that `x` fails in no other way than `p` allows, and `Unless p x y` that `y` has the outcome of `x`
unless `x` fails in a way that `p` describes.  Both pass from the parts of a computation to the whole:
there is one rule for each way in which such computations are put together.
-/

namespace Lineage

section Except

variable {ε α β : Type} {x : Except ε α}

theorem map_eq_ok_iff {f : α → β} {b : β} : x.map f = .ok b ↔ ∃ a, x = .ok a ∧ f a = b := by
  cases x with
  | error e => simp [Except.map]
  | ok a => simp [Except.map]

theorem map_eq_error_iff {f : α → β} {e : ε} : x.map f = .error e ↔ x = .error e := by
  cases x with
  | error e' => simp [Except.map]
  | ok a => simp [Except.map]

theorem bind_eq_ok_iff {f : α → Except ε β} {b : β} :
    x >>= f = .ok b ↔ ∃ a, x = .ok a ∧ f a = .ok b := by
  cases x with
  | error e =>
    show Except.error e = .ok b ↔ _
    simp
  | ok a =>
    show f a = .ok b ↔ _
    simp

/-- Where a sequence of two computations fails. -/
theorem bind_eq_error_iff {f : α → Except ε β} {e : ε} :
    x >>= f = .error e ↔ x = .error e ∨ ∃ a, x = .ok a ∧ f a = .error e := by
  cases x with
  | error e' =>
    show Except.error e' = .error e ↔ _
    simp
  | ok a =>
    show f a = .error e ↔ _
    simp

/-- A loop fails at the first step that fails. -/
theorem foldlM_eq_error_iff {f : β → α → Except ε β} {l : List α} {b : β} {e : ε} :
    l.foldlM f b = .error e ↔ ∃ before a after b', l = before ++ a :: after ∧
      before.foldlM f b = .ok b' ∧ f b' a = .error e := by
  constructor
  · intro fails
    induction l generalizing b with
    | nil => cases fails
    | cons a l ih =>
      rw [List.foldlM_cons] at fails
      rcases bind_eq_error_iff.mp fails with first | ⟨b₁, first, later⟩
      · exact ⟨[], a, l, b, rfl, rfl, first⟩
      · obtain ⟨before, a', after, b', rfl, passed, last⟩ := ih later
        refine ⟨a :: before, a', after, b', rfl, ?_, last⟩
        rw [List.foldlM_cons]
        exact bind_eq_ok_iff.mpr ⟨b₁, first, passed⟩
  · rintro ⟨before, a, after, b', rfl, passed, last⟩
    rw [List.foldlM_append]
    refine bind_eq_error_iff.mpr (.inr ⟨b', passed, ?_⟩)
    rw [List.foldlM_cons]
    exact bind_eq_error_iff.mpr (.inl last)

/-- Each result of a sequence of computations is the result of one of them. -/
theorem exists_of_mem_mapM {f : α → Except ε β} {l : List α} {bs : List β} {b : β}
    (e : l.mapM f = .ok bs) (hb : b ∈ bs) : ∃ a ∈ l, f a = .ok b := by
  induction l generalizing bs with
  | nil =>
    cases e
    exact absurd hb List.not_mem_nil
  | cons a l ih =>
    rw [List.mapM_cons] at e
    obtain ⟨b', first, e⟩ := bind_eq_ok_iff.mp e
    obtain ⟨bs', rest, e⟩ := bind_eq_ok_iff.mp e
    cases e
    rcases List.mem_cons.mp hb with rfl | hb
    · exact ⟨a, List.mem_cons_self, first⟩
    · obtain ⟨a', ha', he⟩ := ih rest hb
      exact ⟨a', List.mem_cons_of_mem a ha', he⟩

/-- The result of each of them is among the results of the sequence. -/
theorem exists_mem_of_mapM {f : α → Except ε β} {l : List α} {bs : List β} {a : α}
    (e : l.mapM f = .ok bs) (ha : a ∈ l) : ∃ b ∈ bs, f a = .ok b := by
  induction l generalizing bs with
  | nil => exact absurd ha List.not_mem_nil
  | cons a' l ih =>
    rw [List.mapM_cons] at e
    obtain ⟨b', first, e⟩ := bind_eq_ok_iff.mp e
    obtain ⟨bs', rest, e⟩ := bind_eq_ok_iff.mp e
    cases e
    rcases List.mem_cons.mp ha with rfl | ha
    · exact ⟨b', List.mem_cons_self, first⟩
    · obtain ⟨b, hb, he⟩ := ih rest ha
      exact ⟨b, List.mem_cons_of_mem b' hb, he⟩

/-- A sequence of computations that all have a result has these results. -/
theorem mapM_eq_ok_of_forall {f : α → Except ε β} {g : α → β} {l : List α}
    (all : ∀ a ∈ l, f a = .ok (g a)) : l.mapM f = .ok (l.map g) := by
  induction l with
  | nil => rfl
  | cons a l ih =>
    rw [List.mapM_cons, all a List.mem_cons_self, ih fun b hb => all b (List.mem_cons_of_mem a hb)]
    rfl

/-- A sequence of computations fails as the first one that fails. -/
theorem mapM_eq_error_of_first {f : α → Except ε β} {before after : List α} {a : α} {e : ε}
    (good : ∀ x ∈ before, ∃ b, f x = .ok b) (bad : f a = .error e) :
    (before ++ a :: after).mapM f = .error e := by
  induction before with
  | nil =>
    rw [List.nil_append, List.mapM_cons, bad]
    rfl
  | cons x before ih =>
    obtain ⟨b, hb⟩ := good x List.mem_cons_self
    rw [List.cons_append, List.mapM_cons, hb, ih fun y hy => good y (List.mem_cons_of_mem x hy)]
    rfl

end Except

variable {p q : ResolveError → Prop} {α β : Type}

/-! ### How a computation may fail -/

/-- The computation fails only in ways that `p` allows. -/
def FailsIn (p : ResolveError → Prop) (x : Except ResolveError α) : Prop :=
  ∀ e, x = .error e → p e

section FailsIn

theorem failsIn_ok (a : α) : FailsIn p (.ok a : Except ResolveError α) :=
  fun _ h => nomatch h

theorem failsIn_error {e : ResolveError} (he : p e) : FailsIn p (.error e : Except ResolveError α) := by
  rintro _ ⟨⟩
  exact he

variable {x : Except ResolveError α}

theorem FailsIn.mono (hx : FailsIn p x) (hpq : ∀ e, p e → q e) : FailsIn q x :=
  fun e h => hpq e (hx e h)

theorem FailsIn.map (hx : FailsIn p x) (f : α → β) : FailsIn p (x.map f) :=
  fun e h => hx e (map_eq_error_iff.mp h)

theorem FailsIn.bind {f : α → Except ResolveError β} (hx : FailsIn p x)
    (hf : ∀ a, x = .ok a → FailsIn p (f a)) : FailsIn p (x >>= f) := by
  intro e h
  rcases bind_eq_error_iff.mp h with h | ⟨a, ha, h⟩
  · exact hx e h
  · exact hf a ha e h

theorem failsIn_mapM {f : α → Except ResolveError β} {l : List α} (hf : ∀ a ∈ l, FailsIn p (f a)) :
    FailsIn p (l.mapM f) := by
  induction l with
  | nil => exact failsIn_ok []
  | cons a l ih =>
    rw [List.mapM_cons]
    refine (hf a List.mem_cons_self).bind fun b _ => ?_
    exact (ih fun a' ha' => hf a' (List.mem_cons_of_mem a ha')).bind fun bs _ => failsIn_ok (b :: bs)

end FailsIn

/-! ### Two computations with one outcome -/

/-- `y` has the outcome of `x`, unless `x` fails in a way that `p` describes. -/
def Unless (p : ResolveError → Prop) (x y : Except ResolveError α) : Prop :=
  FailsIn (¬ p ·) x → y = x

section Unless

variable {x y : Except ResolveError α}

theorem unless_of_eq (e : y = x) : Unless p x y := fun _ => e

theorem unless_error {e : ResolveError} (he : p e) : Unless p (.error e) y :=
  fun h => absurd he (h e rfl)

/-- A success is not affected. -/
theorem Unless.of_ok {a : α} (h : Unless p x y) (e : x = .ok a) : y = .ok a := by
  subst e
  exact h (failsIn_ok a)

/-- Nor is a failure of another kind. -/
theorem Unless.of_error {e : ResolveError} (h : Unless p x y) (hx : x = .error e) (he : ¬ p e) :
    y = .error e := by
  subst hx
  exact h (failsIn_error he)

theorem Unless.map {f g : α → β} (h : Unless p x y) (hfg : ∀ a, x = .ok a → g a = f a) :
    Unless p (x.map f) (y.map g) := by
  intro hx
  rw [h fun e he => hx e (map_eq_error_iff.mpr he)]
  cases x with
  | error e => rfl
  | ok a => exact congrArg Except.ok (hfg a rfl)

theorem Unless.bind {f g : α → Except ResolveError β} (h : Unless p x y)
    (hfg : ∀ a, x = .ok a → Unless p (f a) (g a)) : Unless p (x >>= f) (y >>= g) := by
  intro hx
  rw [h fun e he => hx e (bind_eq_error_iff.mpr (.inl he))]
  cases x with
  | error e => rfl
  | ok a => exact hfg a rfl fun e he => hx e (bind_eq_error_iff.mpr (.inr ⟨a, rfl, he⟩))

theorem unless_mapM {f g : α → Except ResolveError β} {l : List α}
    (hfg : ∀ a ∈ l, Unless p (f a) (g a)) : Unless p (l.mapM f) (l.mapM g) := by
  induction l with
  | nil => exact unless_of_eq rfl
  | cons a l ih =>
    rw [List.mapM_cons, List.mapM_cons]
    refine (hfg a List.mem_cons_self).bind fun b _ => ?_
    have rest := ih fun a' ha' => hfg a' (List.mem_cons_of_mem a ha')
    exact rest.bind fun bs _ => unless_of_eq rfl

end Unless

end Lineage
