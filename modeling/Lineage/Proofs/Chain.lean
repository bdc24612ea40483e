import Lineage.Proofs.Arena
import Lineage.Proofs.Ascend
import Lineage.Proofs.Failure
import Lineage.Proofs.Memoization
import Mathlib.Tactic.Common

/-!
# Chains and the sequence of superclasses

The chain of a type, found by an ascent that remembers what it met, against the sequence of superclasses
(`ascend`), which remembers nothing.  The sequence ends at a root, or breaks off, or repeats itself, and
the chain says which: `chain_eq_ok_iff`, `chain_eq_missing_iff`, `chain_eq_cycle_iff`.  At the end stands
all of it together, as a scope answers it with the help of its memo.
-/

namespace Lineage

namespace Hierarchy

variable {h : Hierarchy} {c t : Handle} {met types : List Handle} {ending : Option ResolveError}
  {id : TypeId} {i : Nat}

/-! ### The course of an ascent in the sequence -/

namespace Climb

/-- The types that are met are the first ones of the sequence. -/
theorem getElem?_eq (hc : h.Climb met c types ending) (hi : i < types.length) :
    types[i]? = h.ascend c i := by
  induction hc generalizing i with
  | again old => exact absurd hi (Nat.not_lt_zero i)
  | foreign new e => exact absurd hi (Nat.not_lt_zero i)
  | broken new e =>
    obtain rfl : i = 0 := Nat.lt_one_iff.mp hi
    rfl
  | root new e =>
    obtain rfl : i = 0 := Nat.lt_one_iff.mp hi
    rfl
  | up new e rest ih =>
    cases i with
    | zero => rfl
    | succ i =>
      rw [ascend_succ' e, List.getElem?_cons_succ]
      exact ih (Nat.lt_of_succ_lt_succ hi)

theorem map_some_eq (hc : h.Climb met c types ending) :
    types.map some = (List.range types.length).map (h.ascend c) := by
  apply List.ext_getElem?
  intro i
  by_cases hi : i < types.length
  · have := hc.getElem?_eq hi
    rw [List.getElem?_eq_getElem hi] at this
    simp [hi, ← this]
  · simp [hi]

/-- No type is met that lies behind the ascent. -/
theorem not_mem_met (hc : h.Climb met c types ending) : ∀ t ∈ types, t ∉ met := by
  induction hc with
  | again old => simp
  | foreign new e => simp
  | broken new e => simpa using new
  | root new e => simpa using new
  | up new e rest ih =>
    intro t ht
    rcases List.mem_cons.mp ht with rfl | ht
    · exact new
    · exact fun hm => ih t ht (List.mem_cons_of_mem _ hm)

/-- No type is met twice. -/
theorem nodup (hc : h.Climb met c types ending) : types.Nodup := by
  induction hc with
  | again old => exact List.nodup_nil
  | foreign new e => exact List.nodup_nil
  | broken new e => simp
  | root new e => simp
  | up new e rest ih =>
    exact List.nodup_cons.mpr ⟨fun hm => rest.not_mem_met _ hm List.mem_cons_self, ih⟩

theorem endsAt : ∀ {met c types}, h.Climb met c types none →
    ∃ n t, types.length = n + 1 ∧ h.EndsAt c n t
  | _, c, _, .root _ e => ⟨0, c, rfl, rfl, e⟩
  | _, _, _, .up _ e rest => by
    obtain ⟨n, t, hn, hat, hroot⟩ := endsAt rest
    exact ⟨n + 1, t, by rw [List.length_cons, hn], by rw [ascend_succ' e, hat], hroot⟩

theorem breaksAt : ∀ {met c types}, h.Climb met c types (some (.missingSuperclass t id)) →
    ∃ n, h.BreaksAt c n t id
  | _, _, _, .broken _ e => ⟨0, rfl, e⟩
  | _, _, _, .up _ e rest => by
    obtain ⟨n, hat, hstuck⟩ := breaksAt rest
    exact ⟨n + 1, by rw [ascend_succ' e, hat], hstuck⟩

/-- A cycle is reported at a type that was met before, or that lay behind the ascent from the start. -/
theorem comes_back : ∀ {met c types}, h.Climb met c types (some (.cycle t)) →
    h.ascend c types.length = some t ∧ (t ∈ met ∨ t ∈ types)
  | _, _, _, .again old => ⟨rfl, .inl old⟩
  | _, c, _, .up _ e rest => by
    obtain ⟨hat, old⟩ := comes_back rest
    refine ⟨by rw [List.length_cons, ascend_succ' e, hat], ?_⟩
    rcases old with old | old
    · rcases List.mem_cons.mp old with rfl | old
      · exact .inr List.mem_cons_self
      · exact .inl old
    · exact .inr (List.mem_cons_of_mem c old)

theorem repeatsAt (hc : h.Climb [] c types (some (.cycle t))) :
    h.RepeatsAt c types.length t := by
  obtain ⟨hat, old⟩ := hc.comes_back
  refine ⟨hat, ?_, ?_⟩
  · obtain ⟨i, hi, rfl⟩ := List.mem_iff_getElem.mp (old.resolve_left List.not_mem_nil)
    refine ⟨i, hi, ?_⟩
    rw [← hc.getElem?_eq hi, List.getElem?_eq_getElem hi]
  · intro j hj i hij _ same
    have hi := Nat.lt_trans hij hj
    rw [← hc.getElem?_eq hi, ← hc.getElem?_eq hj] at same
    -- no type is met twice, so equal items stand at one place
    have := (List.getElem?_inj hi hc.nodup).mp same
    omega

/-- From a type of a well-formed hierarchy no foreign handle is reached. -/
theorem ne_unknownType (hw : h.WellFormed) (hc : h.Climb met c types ending)
    (known : c.index < h.size) (u : Handle) : ending ≠ some (.unknownType u) := by
  induction hc with
  | again old => simp
  | foreign new e =>
    obtain ⟨node, hnode⟩ := Hierarchy.exists_node? known
    obtain ⟨hnone, -⟩ | ⟨_, _, _, _, _, he⟩ := of_superclass_error e
    · cases hnode.symm.trans hnone
    · cases he
  | broken new e => simp
  | root new e => simp
  | up new e rest ih => exact ih (hw.superclass_lt e)

/-- Nor is an interface asked for. -/
theorem ne_missingInterface (hc : h.Climb met c types ending) (u : Handle) (id : TypeId) :
    ending ≠ some (.missingInterface u id) := by
  induction hc with
  | up new e rest ih => exact ih
  | _ => simp

end Climb

/-! ### The three answers -/

theorem chain_eq (hc : h.Climb [] c types ending) : h.chain c = ending.elim (.ok types) .error :=
  hc.collect_eq

/-- A chain is the whole course of an ascent to a root. -/
theorem climb_of_chain_eq_ok (e : h.chain c = .ok types) : h.Climb [] c types none := by
  obtain ⟨types', ending, hc⟩ := exists_climb h [] c
  rw [chain_eq hc] at e
  cases ending with
  | none =>
    cases e
    exact hc
  | some err => cases e

/-- A chain that fails is an ascent with that failure at its end. -/
theorem climb_of_chain_eq_error {err : ResolveError} (e : h.chain c = .error err) :
    ∃ types, h.Climb [] c types (some err) := by
  obtain ⟨types, ending, hc⟩ := exists_climb h [] c
  rw [chain_eq hc] at e
  cases ending with
  | none => cases e
  | some err' =>
    cases e
    exact ⟨types, hc⟩

/-- The chain of the superclass is the rest of the chain. -/
theorem chain_of_superclass {p : Handle} (up : h.superclass c = .ok (some p))
    (e : h.chain c = .ok types) : ∃ rest, types = c :: rest ∧ h.chain p = .ok rest := by
  cases climb_of_chain_eq_ok e with
  | root new root => cases up.symm.trans root
  | up new up' rest =>
    cases up.symm.trans up'
    exact ⟨_, rfl, chain_eq (rest.of_subset (by simp) (by simp))⟩

section Answers

variable (hw : h.WellFormed) (known : c.index < h.size)
include hw known

/-- Each answer comes with a kind of sequence. -/
theorem chain_cases :
    (∃ types n t, h.chain c = .ok types ∧ h.EndsAt c n t ∧
        types.map some = (List.range (n + 1)).map (h.ascend c)) ∨
      (∃ t id n, h.chain c = .error (.missingSuperclass t id) ∧ h.BreaksAt c n t id) ∨
      ∃ t n, h.chain c = .error (.cycle t) ∧ h.RepeatsAt c n t := by
  obtain ⟨types, ending, hc⟩ := exists_climb h [] c
  have answer := chain_eq hc
  cases ending with
  | none =>
    obtain ⟨n, t, hn, hat⟩ := hc.endsAt
    exact .inl ⟨types, n, t, answer, hat, by rw [← hn, hc.map_some_eq]⟩
  | some e =>
    cases e with
    | missingSuperclass t id =>
      obtain ⟨n, hat⟩ := hc.breaksAt
      exact .inr (.inl ⟨t, id, n, answer, hat⟩)
    | cycle t => exact .inr (.inr ⟨t, types.length, answer, hc.repeatsAt⟩)
    | missingInterface t id => exact absurd rfl (hc.ne_missingInterface t id)
    | unknownType u => exact absurd rfl (hc.ne_unknownType hw known u)

/-- The chain is the sequence up to the root where it ends. -/
theorem chain_eq_ok_iff : h.chain c = .ok types ↔
    ∃ n t, h.EndsAt c n t ∧ types.map some = (List.range (n + 1)).map (h.ascend c) := by
  constructor
  · intro e
    obtain ⟨types', n, t, e', hat, hmap⟩ | ⟨t, id, n, e', -⟩ | ⟨t, n, e', -⟩ :=
      chain_cases hw known <;> rw [e'] at e <;> cases e
    exact ⟨n, t, hat, hmap⟩
  · rintro ⟨n, t, hat, hmap⟩
    obtain ⟨types', n', t', e, hat', hmap'⟩ | ⟨t', id, n', -, hat'⟩ | ⟨t', n', -, hat'⟩ :=
      chain_cases hw known
    · obtain rfl := hat.unique hat'
      rw [e, (List.map_inj_right fun _ _ => Option.some.inj).mp (hmap.trans hmap'.symm)]
    · exact absurd hat' hat.not_breaksAt
    · exact absurd hat' hat.not_repeatsAt

theorem chain_eq_missing_iff :
    h.chain c = .error (.missingSuperclass t id) ↔ ∃ n, h.BreaksAt c n t id := by
  constructor
  · intro e
    obtain ⟨types', n, t', e', -⟩ | ⟨t', id', n, e', hat⟩ | ⟨t', n, e', -⟩ :=
      chain_cases hw known <;> rw [e'] at e <;> cases e
    exact ⟨n, hat⟩
  · rintro ⟨n, hat⟩
    obtain ⟨types', n', t', -, hat', -⟩ | ⟨t', id', n', e, hat'⟩ | ⟨t', n', -, hat'⟩ :=
      chain_cases hw known
    · exact absurd hat hat'.not_breaksAt
    · obtain ⟨rfl, rfl⟩ := hat.unique hat'
      exact e
    · exact absurd hat' hat.not_repeatsAt

theorem chain_eq_cycle_iff : h.chain c = .error (.cycle t) ↔ ∃ n, h.RepeatsAt c n t := by
  constructor
  · intro e
    obtain ⟨types', n, t', e', -⟩ | ⟨t', id', n, e', -⟩ | ⟨t', n, e', hat⟩ :=
      chain_cases hw known <;> rw [e'] at e <;> cases e
    exact ⟨n, hat⟩
  · rintro ⟨n, hat⟩
    obtain ⟨types', n', t', -, hat', -⟩ | ⟨t', id', n', -, hat'⟩ | ⟨t', n', e, hat'⟩ :=
      chain_cases hw known
    · exact absurd hat hat'.not_repeatsAt
    · exact absurd hat hat'.not_repeatsAt
    · rw [hat.unique hat']
      exact e

end Answers

/-- The chain of a type is the type and the chain of its superclass, so the one is complete if the
other is. -/
theorem WellFormed.chain_cons_iff (hw : h.WellFormed) {p : Handle}
    (up : h.superclass c = .ok (some p)) : h.chain c = .ok (c :: types) ↔ h.chain p = .ok types := by
  constructor
  · intro e
    obtain ⟨rest, same, above⟩ := chain_of_superclass up e
    cases same
    exact above
  · intro above
    obtain ⟨node, hnode⟩ := node?_of_superclass_ok up
    have known := lt_size_of_node? hnode
    obtain ⟨m, u, ends, -⟩ := (chain_eq_ok_iff hw (hw.superclass_lt up)).mp above
    obtain ⟨types', -, -, e, -⟩ | ⟨t, id, n, -, breaks⟩ | ⟨t, n, -, repeats⟩ := chain_cases hw known
    · obtain ⟨rest, rfl, above'⟩ := chain_of_superclass up e
      cases above.symm.trans above'
      exact e
    · -- the sequence of the superclass would break off as well
      cases n with
      | zero =>
        cases Option.some.inj breaks.1
        cases up.symm.trans breaks.2
      | succ n => exact absurd ⟨(ascend_succ' up n).symm.trans breaks.1, breaks.2⟩ ends.not_breaksAt
    · refine absurd ?_ (repeats.ascend_ne_none (m + 2))
      rw [ascend_succ' up]
      exact ends.last.2

end Hierarchy

/-! ### The chain that a scope answers with -/

namespace Scope

variable {root : Option TypeId} {s : Scope} {c : Handle}

/-- **The chain tells what becomes of the sequence of superclasses**, and is just one of three things: the sequence
up to the root, the failure at which it breaks off, or a cycle at the first type that is its own ancestor. -/
theorem ask_chain_classified (hs : s.Reachable root) (known : c.index < s.hierarchy.size) :
    (∀ types, (s.ask (.chain c)).1 = .ok (.handles types) ↔
        ∃ n t, s.hierarchy.EndsAt c n t ∧
          types.map some = (List.range (n + 1)).map (s.hierarchy.ascend c)) ∧
      (∀ types, (s.ask (.chain c)).1 = .ok (.handles types) → types.Nodup) ∧
      (∀ t id, (s.ask (.chain c)).1 = .error (.missingSuperclass t id) ↔
        ∃ n, s.hierarchy.BreaksAt c n t id) ∧
      (∀ t, (s.ask (.chain c)).1 = .error (.cycle t) ↔ ∃ n, s.hierarchy.RepeatsAt c n t) ∧
      ((∃ n t, s.hierarchy.EndsAt c n t) ∨ (∃ n t id, s.hierarchy.BreaksAt c n t id) ∨
        ∃ n t, s.hierarchy.RepeatsAt c n t) ∧
      (∀ m n t u id, s.hierarchy.EndsAt c m t → ¬ s.hierarchy.BreaksAt c n u id) ∧
      (∀ m n t u, s.hierarchy.EndsAt c m t → ¬ s.hierarchy.RepeatsAt c n u) ∧
      (∀ m n t u id, s.hierarchy.BreaksAt c m t id → ¬ s.hierarchy.RepeatsAt c n u) ∧
      ∀ n t, s.hierarchy.RepeatsAt c n t →
        (∃ j, s.hierarchy.ascend c j = some t ∧ s.hierarchy.OwnAncestor t ∧
          ∀ i < j, ∀ u, s.hierarchy.ascend c i = some u → ¬ s.hierarchy.OwnAncestor u) ∧
        (s.hierarchy.OwnAncestor c → t = c) := by
  have hw := hs.hierarchy.wellFormed
  have ok (types : List Handle) :
      (s.ask (.chain c)).1 = .ok (.handles types) ↔ s.hierarchy.chain c = .ok types :=
    hs.ask_eq_ok_iff rfl fun _ => Answer.handles.inj
  have error (e : ResolveError) :
      (s.ask (.chain c)).1 = .error e ↔ s.hierarchy.chain c = .error e :=
    hs.ask_eq_error_iff rfl
  refine ⟨fun types => ?_, fun types e => ?_, fun t id => ?_, fun t => ?_, ?_, ?_, ?_, ?_, ?_⟩
  · rw [ok, Hierarchy.chain_eq_ok_iff hw known]
  · exact (Hierarchy.climb_of_chain_eq_ok ((ok types).mp e)).nodup
  · rw [error, Hierarchy.chain_eq_missing_iff hw known]
  · rw [error, Hierarchy.chain_eq_cycle_iff hw known]
  · obtain ⟨_, n, t, _, hat, _⟩ | ⟨t, id, n, _, hat⟩ | ⟨t, n, _, hat⟩ :=
      Hierarchy.chain_cases hw known
    · exact .inl ⟨n, t, hat⟩
    · exact .inr (.inl ⟨n, t, id, hat⟩)
    · exact .inr (.inr ⟨n, t, hat⟩)
  · exact fun m n t u id hm => hm.not_breaksAt
  · exact fun m n t u hm => hm.not_repeatsAt
  · exact fun m n t u id hm => hm.not_repeatsAt
  · exact fun n t hat => ⟨hat.first_own_ancestor, hat.eq_of_own_ancestor⟩

/-- A type below two types that inherit from each other. -/
def belowCircle : Scope :=
  let named (n : UInt32) : TypeId := ⟨⟨.empty⟩, ⟨n⟩⟩
  loaded none [.new (named 1) (.binary (some (named 2)) []),
    .new (named 2) (.binary (some (named 3)) []),
    .new (named 3) (.binary (some (named 2)) [])]

/-- The chain of the type below the circle fails at the first of the two types on it. -/
theorem ask_chain_belowCircle :
    belowCircle.Reachable none ∧ (⟨0⟩ : Handle).index < belowCircle.hierarchy.size ∧
      belowCircle.hierarchy.RepeatsAt ⟨0⟩ 3 ⟨1⟩ ∧
      (belowCircle.ask (.chain ⟨0⟩)).1 = .error (.cycle ⟨1⟩) := by
  have reachable : belowCircle.Reachable none := reachable_loaded none _
  have known : (⟨0⟩ : Handle).index < belowCircle.hierarchy.size := by decide +kernel
  have hat : belowCircle.hierarchy.RepeatsAt ⟨0⟩ 3 ⟨1⟩ := by
    unfold Hierarchy.RepeatsAt
    decide +kernel
  obtain ⟨-, -, -, cycle, -⟩ := ask_chain_classified reachable known
  exact ⟨reachable, known, hat, (cycle ⟨1⟩).mpr ⟨3, hat⟩⟩

end Scope

end Lineage
