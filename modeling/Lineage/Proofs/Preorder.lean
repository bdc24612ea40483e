import Lineage.Proofs.Inheritance
import Lineage.Proofs.Shadowing

/-!
# Inheritance as a preorder

A type inherits from another one if that one is reached from it by steps to the superclass, whatever becomes of
the chain further up.  So inheritance is reflexive and transitive, and two types inherit from each other only if
they lie on a circle; then neither of them has a chain.

Main facts: `WellFormed.inherits_iff_above`, `inherits_of_not_above` and `Above.ownAncestor`; at the end the
answers of a scope.
-/

namespace Lineage

namespace Hierarchy

variable {h : Hierarchy} {c p : Handle}

/-- **Inheritance is reachability**, from types of the hierarchy. -/
theorem WellFormed.inherits_iff_above (hw : h.WellFormed) :
    h.inherits c p = .ok true ↔ c.index < h.size ∧ h.Above c p := by
  obtain ⟨types, ending, hc⟩ := exists_climb h [] c
  rw [hc.inherits_iff]
  constructor
  · intro hp
    have above := hc.above_of_mem hp
    cases hn : h.node? c with
    | some node => exact ⟨lt_size_of_node? hn, above⟩
    | none =>
      -- nothing lies above a foreign handle but itself, and that is not met
      obtain rfl := eq_of_above_foreign hn above
      obtain ⟨node, there⟩ := hc.exists_node? p hp
      cases hn.symm.trans there
  · rintro ⟨known, above⟩
    obtain ⟨node, there⟩ := exists_node? known
    exact (hc.mem_iff_above hw there).mpr above

/-- The search for a type that does not lie above goes along the whole chain. -/
theorem inherits_of_not_above (apart : ¬ h.Above c p) : h.inherits c p = (h.chain c).map fun _ => false := by
  obtain ⟨types, ending, hc⟩ := exists_climb h [] c
  have far : p ∉ types := fun hp => apart (hc.above_of_mem hp)
  rw [hc.inherits_eq, if_neg far, chain_eq hc]
  cases ending <;> rfl

/-- Of two types that lie above each other, each is its own ancestor. -/
theorem Above.ownAncestor (up : h.Above c p) (down : h.Above p c) (ne : c ≠ p) : h.OwnAncestor c := by
  obtain ⟨m, hm⟩ := up
  obtain ⟨n, hn⟩ := down
  refine ⟨m + n, ?_, by rw [ascend_add_of_eq hm, hn]⟩
  rcases Nat.eq_zero_or_pos m with rfl | pos
  · exact absurd (Option.some.inj hm) ne
  · omega

end Hierarchy

namespace Scope

variable {root : Option TypeId} {s : Scope}

/-- **Inheritance is a preorder.**  It is reachability by steps to the superclass; where there is none, the answer
is no or the failure of the chain.  Two different types that inherit from each other lie on a circle. -/
theorem Reachable.ask_inherits_preorder (hs : s.Reachable root) :
    (∀ c p : Handle, c.index < s.hierarchy.size →
      ((s.ask (.inherits c p)).1 = .ok (.truth true) ↔ Relation.ReflTransGen
        (fun t u => (s.ask (.superclass t)).1 = .ok (.handle (some u))) c p) ∧
      ((s.ask (.inherits c p)).1 ≠ .ok (.truth true) →
        (∀ types, (s.ask (.chain c)).1 = .ok (.handles types) →
          (s.ask (.inherits c p)).1 = .ok (.truth false)) ∧
        ∀ e, (s.ask (.chain c)).1 = .error e → (s.ask (.inherits c p)).1 = .error e)) ∧
      (∀ c : Handle, c.index < s.hierarchy.size → (s.ask (.inherits c c)).1 = .ok (.truth true)) ∧
      (∀ c p a : Handle, (s.ask (.inherits c p)).1 = .ok (.truth true) →
        (s.ask (.inherits p a)).1 = .ok (.truth true) → (s.ask (.inherits c a)).1 = .ok (.truth true)) ∧
      ∀ c p : Handle, c ≠ p → (s.ask (.inherits c p)).1 = .ok (.truth true) →
        (s.ask (.inherits p c)).1 = .ok (.truth true) →
        (s.ask (.chain c)).1 = .error (.cycle c) ∧ (s.ask (.chain p)).1 = .error (.cycle p) := by
  have hw := hs.hierarchy.wellFormed
  have truth (c p : Handle) (b : Bool) :
      (s.ask (.inherits c p)).1 = .ok (.truth b) ↔ s.hierarchy.inherits c p = .ok b :=
    hs.ask_eq_ok_iff rfl fun _ => Answer.truth.inj
  have fails (c p : Handle) (e : ResolveError) :
      (s.ask (.inherits c p)).1 = .error e ↔ s.hierarchy.inherits c p = .error e :=
    hs.ask_eq_error_iff rfl
  simp only [ne_eq, truth, fails, hs.ask_superclass_iff, hs.ask_chain_iff, hs.ask_chain_error_iff,
    hw.inherits_iff_above, ← Hierarchy.above_iff_reflTransGen]
  refine ⟨fun c p known => ⟨by simp [known], fun apart => ?_⟩, fun c known => ⟨known, .refl _ c⟩, ?_, ?_⟩
  · have along := Hierarchy.inherits_of_not_above fun above => apart ⟨known, above⟩
    refine ⟨fun types complete => ?_, fun e failed => ?_⟩
    · rw [along, complete]
      rfl
    · rw [along, failed]
      rfl
  · rintro c p a ⟨known, low⟩ ⟨-, high⟩
    exact ⟨known, low.trans high⟩
  · rintro c p ne ⟨-, up⟩ ⟨-, down⟩
    exact ⟨Hierarchy.chain_of_ownAncestor (up.ownAncestor down ne),
      Hierarchy.chain_of_ownAncestor (down.ownAncestor up (Ne.symm ne))⟩

/-- Below a circle of two types: the type below inherits from both of them, though it has no chain; each of the
two inherits from the other one; and none of them inherits from the type below. -/
theorem ask_inherits_preorder_belowCircle :
    belowCircle.Reachable none ∧ (⟨0⟩ : Handle).index < belowCircle.hierarchy.size ∧
      (belowCircle.ask (.inherits ⟨0⟩ ⟨1⟩)).1 = .ok (.truth true) ∧
      (belowCircle.ask (.inherits ⟨1⟩ ⟨2⟩)).1 = .ok (.truth true) ∧
      (belowCircle.ask (.inherits ⟨0⟩ ⟨2⟩)).1 = .ok (.truth true) ∧
      Relation.ReflTransGen
        (fun t u => (belowCircle.ask (.superclass t)).1 = .ok (.handle (some u))) ⟨0⟩ ⟨2⟩ ∧
      ((belowCircle.ask (.chain ⟨1⟩)).1 = .error (.cycle ⟨1⟩) ∧
        (belowCircle.ask (.chain ⟨2⟩)).1 = .error (.cycle ⟨2⟩)) ∧
      (belowCircle.ask (.inherits ⟨1⟩ ⟨0⟩)).1 = .error (.cycle ⟨1⟩) := by
  have reachable : belowCircle.Reachable none := reachable_loaded none _
  have known {c : Handle} (hc : c.index < 3) : c.index < belowCircle.hierarchy.size :=
    Nat.lt_of_lt_of_eq hc (by decide +kernel)
  have low : (belowCircle.ask (.inherits ⟨0⟩ ⟨1⟩)).1 = .ok (.truth true) := by decide +kernel
  have up : (belowCircle.ask (.inherits ⟨1⟩ ⟨2⟩)).1 = .ok (.truth true) := by decide +kernel
  have down : (belowCircle.ask (.inherits ⟨2⟩ ⟨1⟩)).1 = .ok (.truth true) := by decide +kernel
  obtain ⟨reached, -, trans, circle⟩ := reachable.ask_inherits_preorder
  have both := circle ⟨1⟩ ⟨2⟩ (by decide) up down
  have high := trans _ _ _ low up
  have apart : (belowCircle.ask (.inherits ⟨1⟩ ⟨0⟩)).1 ≠ .ok (.truth true) := by decide +kernel
  exact ⟨reachable, known (by decide), low, up, high, (reached ⟨0⟩ ⟨2⟩ (known (by decide))).1.mp high, both,
    ((reached ⟨1⟩ ⟨0⟩ (known (by decide))).2 apart).2 _ both.1⟩

end Scope

end Lineage
