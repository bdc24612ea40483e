import Lineage.Hierarchy.Ascent
import Lineage.Proofs.Edge

/-!
# What an ascent meets

`h.Climb met c types ending` says that an ascent from `c`, with the types `met` behind it, meets the
types of the list `types` and is over then: with a failure, or without one at a root.  The relation
has one rule for each thing that can happen at a type, and neither the step ahead nor the failure that
waits for its turn shows in it.

Main facts: `exists_climb` and `Climb.unique` (each ascent has one course), and `Climb.collect_eq`,
`Climb.search_eq` and `Climb.take_eq` (all that the three ways of running an ascent give can be read
off that course), with `Climb.inherits_eq` for the search of an ancestor.
-/

namespace Lineage

/-- The course of an ascent: the types that it meets, and the failure that ends it, if it does not end
at a root. -/
inductive Hierarchy.Climb (h : Hierarchy) :
    List Handle → Handle → List Handle → Option ResolveError → Prop where
  | again {met : List Handle} {c : Handle} (old : c ∈ met) : Climb h met c [] (some (.cycle c))
  | foreign {met : List Handle} {c : Handle} (new : c ∉ met)
      (e : h.superclass c = .error (.unknownType c)) : Climb h met c [] (some (.unknownType c))
  | broken {met : List Handle} {c : Handle} {id : TypeId} (new : c ∉ met)
      (e : h.superclass c = .error (.missingSuperclass c id)) :
      Climb h met c [c] (some (.missingSuperclass c id))
  | root {met : List Handle} {c : Handle} (new : c ∉ met) (e : h.superclass c = .ok none) :
      Climb h met c [c] none
  | up {met : List Handle} {c p : Handle} {types : List Handle} {ending : Option ResolveError}
      (new : c ∉ met) (e : h.superclass c = .ok (some p)) (rest : Climb h (c :: met) p types ending) :
      Climb h met c (c :: types) ending

/-! ### Steps and runs -/

namespace Ascent

variable {h : Hierarchy} {c : Handle} {met : List Handle} {w w' : Ascent}

section Step

theorem step_failed (h : Hierarchy) (e : ResolveError) (ahead : Option Handle) (met : List Handle) :
    (⟨ahead, some e, met⟩ : Ascent).step h = (some (.error e), ⟨ahead, none, met⟩) :=
  rfl

theorem step_over (h : Hierarchy) (met : List Handle) :
    (⟨none, none, met⟩ : Ascent).step h = (none, ⟨none, none, met⟩) :=
  rfl

theorem step_again (old : c ∈ met) :
    (⟨some c, none, met⟩ : Ascent).step h = (some (.error (.cycle c)), ⟨none, none, met⟩) := by
  simp [step, old]

theorem step_foreign (new : c ∉ met) (e : h.superclass c = .error (.unknownType c)) :
    (⟨some c, none, met⟩ : Ascent).step h =
      (some (.error (.unknownType c)), ⟨none, none, c :: met⟩) := by
  simp [step, new, e]

theorem step_broken {id : TypeId} (new : c ∉ met)
    (e : h.superclass c = .error (.missingSuperclass c id)) :
    (⟨some c, none, met⟩ : Ascent).step h =
      (some (.ok c), ⟨none, some (.missingSuperclass c id), c :: met⟩) := by
  simp [step, new, e]

theorem step_up {parent : Option Handle} (new : c ∉ met) (e : h.superclass c = .ok parent) :
    (⟨some c, none, met⟩ : Ascent).step h = (some (.ok c), ⟨parent, none, c :: met⟩) := by
  simp [step, new, e]

end Step

section Collect

theorem collect_of_none (e : w.step h = (none, w')) : w.collect h = .ok [] := by
  rw [collect]
  split <;> simp_all

theorem collect_of_error {err : ResolveError} (e : w.step h = (some (.error err), w')) :
    w.collect h = .error err := by
  rw [collect]
  split <;> simp_all

theorem collect_of_ok (e : w.step h = (some (.ok c), w')) :
    w.collect h = (w'.collect h).map (c :: ·) := by
  rw [collect]
  split <;> simp_all

end Collect

section Search

variable {α : Type} {probe : Handle → Option α}

theorem search_of_none (e : w.step h = (none, w')) : w.search h probe = .ok none := by
  rw [search]
  split <;> simp_all

theorem search_of_error {err : ResolveError} (e : w.step h = (some (.error err), w')) :
    w.search h probe = .error err := by
  rw [search]
  split <;> simp_all

theorem search_of_ok (e : w.step h = (some (.ok c), w')) :
    w.search h probe = (probe c).elim (w'.search h probe) fun found => .ok (some found) := by
  rw [search]
  split
  · simp_all
  · simp_all
  · rename_i hs
    rw [e] at hs
    cases hs
    cases probe c <;> rfl

end Search

theorem take_over (h : Hierarchy) (met : List Handle) (n : Nat) :
    take h n ⟨none, none, met⟩ = List.replicate n none := by
  induction n with
  | zero => rfl
  | succ n ih => rw [take, step_over, ih, List.replicate_succ]

/-- More steps begin with the same ones. -/
theorem take_take (h : Hierarchy) (m n : Nat) (w : Ascent) :
    (take h (m + n) w).take m = take h m w := by
  induction m generalizing w with
  | zero => rfl
  | succ m ih => rw [Nat.succ_add, take, take, List.take_succ_cons, ih]

end Ascent

/-! ### Courses -/

namespace Hierarchy

variable {h : Hierarchy} {c : Handle} {met types types' : List Handle}
  {ending ending' : Option ResolveError}

/-- Every ascent comes to an end: a type that is met is one less to be met. -/
theorem exists_climb (h : Hierarchy) (met : List Handle) (c : Handle) :
    ∃ types ending, h.Climb met c types ending := by
  by_cases old : c ∈ met
  · exact ⟨[], _, .again old⟩
  · cases e : h.superclass c with
    | error err =>
      obtain ⟨_, rfl⟩ | ⟨_, id, _, _, _, rfl⟩ := of_superclass_error e
      · exact ⟨[], _, .foreign old e⟩
      · exact ⟨[c], _, .broken old e⟩
    | ok parent =>
      cases parent with
      | none => exact ⟨[c], none, .root old e⟩
      | some p =>
        obtain ⟨node, hnode⟩ := node?_of_superclass_ok e
        have less : h.remaining (c :: met) < h.remaining met :=
          remaining_lt (fun x hx => List.mem_cons_of_mem c hx) (mem_handles_of_node? hnode) old
            List.mem_cons_self
        -- the recursion is on the number of types that were not met yet
        obtain ⟨types, ending, rest⟩ := exists_climb h (c :: met) p
        exact ⟨c :: types, ending, .up old e rest⟩
termination_by h.remaining met

namespace Climb

/-- An ascent has only one course. -/
theorem unique (hc : h.Climb met c types ending) (hc' : h.Climb met c types' ending') :
    types = types' ∧ ending = ending' := by
  induction hc generalizing types' with
  | again old =>
    cases hc' with
    | again _ => exact ⟨rfl, rfl⟩
    | foreign new e => exact absurd old new
    | broken new e => exact absurd old new
    | root new e => exact absurd old new
    | up new e rest => exact absurd old new
  | foreign new e =>
    cases hc' with
    | again old => exact absurd old new
    | foreign _ _ => exact ⟨rfl, rfl⟩
    | broken _ e' => cases e.symm.trans e'
    | root _ e' => cases e.symm.trans e'
    | up _ e' rest => cases e.symm.trans e'
  | broken new e =>
    cases hc' with
    | again old => exact absurd old new
    | foreign _ e' => cases e.symm.trans e'
    | broken _ e' =>
      cases e.symm.trans e'
      exact ⟨rfl, rfl⟩
    | root _ e' => cases e.symm.trans e'
    | up _ e' rest => cases e.symm.trans e'
  | root new e =>
    cases hc' with
    | again old => exact absurd old new
    | foreign _ e' => cases e.symm.trans e'
    | broken _ e' => cases e.symm.trans e'
    | root _ _ => exact ⟨rfl, rfl⟩
    | up _ e' rest => cases e.symm.trans e'
  | up new e rest ih =>
    cases hc' with
    | again old => exact absurd old new
    | foreign _ e' => cases e.symm.trans e'
    | broken _ e' => cases e.symm.trans e'
    | root _ e' => cases e.symm.trans e'
    | up _ e' rest' =>
      cases e.symm.trans e'
      obtain ⟨rfl, rfl⟩ := ih rest'
      exact ⟨rfl, rfl⟩

/-- The types that are met are types of the hierarchy. -/
theorem exists_node? (hc : h.Climb met c types ending) :
    ∀ t ∈ types, ∃ node, h.node? t = some node := by
  induction hc with
  | again old => simp
  | foreign new e => simp
  | @broken _ c id new e =>
    obtain ⟨_, he⟩ | ⟨node, _, hn, _⟩ := of_superclass_error e
    · cases he
    · simpa using ⟨node, hn⟩
  | root new e => simpa using node?_of_superclass_ok e
  | up new e rest ih =>
    intro t ht
    rcases List.mem_cons.mp ht with rfl | ht
    · exact node?_of_superclass_ok e
    · exact ih t ht

/-- An ascent meets the type from which it starts, if that is a type of the hierarchy and new. -/
theorem starts {node : TypeNode} (hc : h.Climb met c types ending) (new : c ∉ met)
    (hn : h.node? c = some node) :
    ∃ more, types = c :: more := by
  cases hc with
  | again old => exact absurd old new
  | foreign _ e =>
    obtain ⟨hnone, -⟩ | ⟨_, _, _, _, _, he⟩ := of_superclass_error e
    · cases hn.symm.trans hnone
    · cases he
  | broken _ e => exact ⟨[], rfl⟩
  | root _ e => exact ⟨[], rfl⟩
  | up _ e rest => exact ⟨_, rfl⟩

/-- An ascent that ends otherwise than with a cycle does not need what lies behind it. -/
theorem of_subset (hc : h.Climb met c types ending) (straight : ∀ t, ending ≠ some (.cycle t))
    {fewer : List Handle} (sub : ∀ t ∈ fewer, t ∈ met) : h.Climb fewer c types ending := by
  induction hc generalizing fewer with
  | again old => exact absurd rfl (straight _)
  | foreign new e => exact .foreign (fun hm => new (sub _ hm)) e
  | broken new e => exact .broken (fun hm => new (sub _ hm)) e
  | root new e => exact .root (fun hm => new (sub _ hm)) e
  | up new e rest ih =>
    refine .up (fun hm => new (sub _ hm)) e (ih straight fun t ht => ?_)
    exact (List.mem_cons.mp ht).elim (· ▸ List.mem_cons_self)
      fun hm => List.mem_cons_of_mem _ (sub t hm)

/-- Climbing to the end gives all types that are met, or the failure at the end. -/
theorem collect_eq (hc : h.Climb met c types ending) :
    (⟨some c, none, met⟩ : Ascent).collect h = ending.elim (.ok types) .error := by
  induction hc with
  | again old => exact Ascent.collect_of_error (Ascent.step_again old)
  | foreign new e => exact Ascent.collect_of_error (Ascent.step_foreign new e)
  | broken new e =>
    rw [Ascent.collect_of_ok (Ascent.step_broken new e),
      Ascent.collect_of_error (Ascent.step_failed h _ none _)]
    rfl
  | root new e =>
    rw [Ascent.collect_of_ok (Ascent.step_up new e), Ascent.collect_of_none (Ascent.step_over h _)]
    rfl
  | @up _ _ _ _ ending new e _ ih =>
    rw [Ascent.collect_of_ok (Ascent.step_up new e), ih]
    cases ending <;> rfl

/-- A search gives what is found first among the types that are met.  The failure at the end comes out
only if nothing is found before it. -/
theorem search_eq {α : Type} (probe : Handle → Option α) (hc : h.Climb met c types ending) :
    (⟨some c, none, met⟩ : Ascent).search h probe =
      (types.findSome? probe).elim (ending.elim (.ok none) .error) fun found => .ok (some found) := by
  induction hc with
  | again old => exact Ascent.search_of_error (Ascent.step_again old)
  | foreign new e => exact Ascent.search_of_error (Ascent.step_foreign new e)
  | @broken _ c _ new e =>
    rw [Ascent.search_of_ok (Ascent.step_broken new e),
      Ascent.search_of_error (Ascent.step_failed h _ none _), List.findSome?_cons]
    cases probe c <;> rfl
  | @root _ c new e =>
    rw [Ascent.search_of_ok (Ascent.step_up new e), Ascent.search_of_none (Ascent.step_over h _),
      List.findSome?_cons]
    cases probe c <;> rfl
  | @up _ c _ _ _ new e _ ih =>
    rw [Ascent.search_of_ok (Ascent.step_up new e), ih, List.findSome?_cons]
    cases probe c <;> rfl

theorem search_eq_ok_some_iff {α : Type} {probe : Handle → Option α} {a : α}
    (hc : h.Climb met c types ending) :
    (⟨some c, none, met⟩ : Ascent).search h probe = .ok (some a) ↔ types.findSome? probe = some a := by
  rw [hc.search_eq]
  cases types.findSome? probe with
  | some b => simp
  | none => cases ending <;> simp

/-- Whether a type inherits from another one is settled when that one is met, or else at the end. -/
theorem inherits_eq (hc : h.Climb [] c types ending) (a : Handle) :
    h.inherits c a = if a ∈ types then .ok true else ending.elim (.ok false) .error := by
  rw [inherits, Ascent.start, hc.search_eq]
  by_cases ha : a ∈ types
  · have found : (types.findSome? fun t => if t = a then some () else none).isSome :=
      List.findSome?_isSome_iff.mpr ⟨a, ha, by simp⟩
    rw [if_pos ha, Option.eq_some_of_isSome found]
    rfl
  · have nowhere : (types.findSome? fun t => if t = a then some () else none) = none := by
      refine List.findSome?_eq_none_iff.mpr fun t ht => if_neg ?_
      rintro rfl
      exact ha ht
    rw [if_neg ha, nowhere]
    cases ending <;> rfl

/-- Step by step: the types that are met, then the failure if there is one, then nothing any more. -/
theorem take_eq (hc : h.Climb met c types ending) (n : Nat) :
    Ascent.take h (types.length + 1 + n) ⟨some c, none, met⟩ =
      types.map (some <| .ok ·) ++ ending.map .error :: List.replicate n none := by
  have finish (w : Ascent) (first : Option (Except ResolveError Handle)) (met : List Handle)
      (e : w.step h = (first, ⟨none, none, met⟩)) :
      Ascent.take h (n + 1) w = first :: List.replicate n none := by
    rw [Ascent.take, e, Ascent.take_over]
  induction hc with
  | again old =>
    rw [List.length_nil, Nat.zero_add, Nat.add_comm 1 n]
    exact finish _ _ _ (Ascent.step_again old)
  | foreign new e =>
    rw [List.length_nil, Nat.zero_add, Nat.add_comm 1 n]
    exact finish _ _ _ (Ascent.step_foreign new e)
  | broken new e =>
    rw [List.length_singleton, Nat.add_comm 2 n, Ascent.take, Ascent.step_broken new e]
    exact congrArg _ (finish _ _ _ (Ascent.step_failed h _ none _))
  | root new e =>
    rw [List.length_singleton, Nat.add_comm 2 n, Ascent.take, Ascent.step_up new e]
    exact congrArg _ (finish _ _ _ (Ascent.step_over h _))
  | @up _ c _ types _ new e _ ih =>
    have : (c :: types).length + 1 + n = (types.length + 1 + n) + 1 := by
      rw [List.length_cons]
      omega
    rw [this, Ascent.take, Ascent.step_up new e, ih]
    rfl

/-- What a step gives is a type that is met, the failure at the end, or nothing. -/
theorem of_mem_take (hc : h.Climb met c types ending) {n : Nat}
    {item : Option (Except ResolveError Handle)}
    (hi : item ∈ Ascent.take h n ⟨some c, none, met⟩) :
    (∃ t ∈ types, item = some (.ok t)) ∨ item = ending.map .error ∨ item = none := by
  -- the first `n` steps are among those up to the end and `n` more
  rw [← Ascent.take_take h n (types.length + 1), Nat.add_comm n, hc.take_eq] at hi
  rcases List.mem_append.mp (List.mem_of_mem_take hi) with hi | hi
  · obtain ⟨t, ht, rfl⟩ := List.mem_map.mp hi
    exact .inl ⟨t, ht, rfl⟩
  · rcases List.mem_cons.mp hi with rfl | hi
    · exact .inr (.inl rfl)
    · exact .inr (.inr (List.eq_of_mem_replicate hi))

end Climb

end Hierarchy

end Lineage
