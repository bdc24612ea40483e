import Lineage.Proofs.Inheritance

/-!
# The protocol of a walk

A walk along the superclasses can be asked for another item for ever.  It gives the types that it meets, each
of them once, then the failure over which it stops, if there is one, and from then on nothing.  Which types
these are, and whether there is a failure, is settled by the superclasses alone: what the walk remembers does
not show.

Main facts: `Climb.item_of_getElem?`, `Climb.item_length` and `Climb.item_of_length_lt` (the items one by one),
`Climb.superclass_of_getElem?` and `Climb.last_cases` (the edges along the walk and the one at its end); at the
end all of it for the walks of a scope.
-/

namespace Lineage

namespace Ascent

variable {h : Hierarchy} {m n : Nat}

/-- What step `n` gives, where the first step is step zero. -/
def item (h : Hierarchy) : Nat → Ascent → Option (Except ResolveError Handle)
  | 0, w => (w.step h).1
  | n + 1, w => item h n (w.step h).2

/-- The items one by one are the items of a row of steps. -/
theorem getElem?_take (w : Ascent) (hn : n < m) : (take h m w)[n]? = some (w.item h n) := by
  induction m generalizing n w with
  | zero => omega
  | succ m ih =>
    cases n with
    | zero => simp [take, item]
    | succ n =>
      simp only [take, item, List.getElem?_cons_succ]
      exact ih _ (by omega)

end Ascent

namespace Hierarchy

variable {h : Hierarchy} {c t u : Handle} {met types : List Handle} {ending : Option ResolveError}
  {n : Nat}

namespace Climb

/-! ### Items -/

section Item

variable (hc : h.Climb met c types ending)
include hc

theorem getElem?_items (n : Nat) :
    (types.map (fun t => some (Except.ok t)) ++ ending.map Except.error :: List.replicate n none)[n]? =
      some ((⟨some c, none, met⟩ : Ascent).item h n) := by
  rw [← hc.take_eq]
  exact Ascent.getElem?_take _ (by omega)

/-- At first a walk gives the types that it meets. -/
theorem item_of_getElem? (ht : types[n]? = some t) :
    (⟨some c, none, met⟩ : Ascent).item h n = some (.ok t) := by
  have hn : n < types.length := (List.getElem?_eq_some_iff.mp ht).1
  have items := hc.getElem?_items n
  rw [List.getElem?_append_left (by simpa using hn)] at items
  simpa [ht, eq_comm] using items

/-- Then it gives the failure, if there is one. -/
theorem item_length : (⟨some c, none, met⟩ : Ascent).item h types.length = ending.map .error := by
  have items := hc.getElem?_items types.length
  rw [List.getElem?_append_right (by simp)] at items
  simpa [eq_comm] using items

/-- After that there is nothing more. -/
theorem item_of_length_lt (hn : types.length < n) : (⟨some c, none, met⟩ : Ascent).item h n = none := by
  have items := hc.getElem?_items n
  obtain ⟨k, hk⟩ : ∃ k, n - types.length = k + 1 := ⟨n - types.length - 1, by omega⟩
  rw [List.getElem?_append_right (by simp; omega), List.length_map, hk, List.getElem?_cons_succ,
    List.getElem?_replicate, if_pos (by omega)] at items
  exact (Option.some.inj items).symm

end Item

/-! ### Edges -/

/-- Each type that is met is the superclass of the one before. -/
theorem superclass_of_getElem? (hc : h.Climb met c types ending) (ht : types[n]? = some t)
    (hu : types[n + 1]? = some u) : h.superclass t = .ok (some u) := by
  have hn : n + 1 < types.length := (List.getElem?_eq_some_iff.mp hu).1
  rw [hc.getElem?_eq (by omega)] at ht
  rw [hc.getElem?_eq hn] at hu
  obtain ⟨t', ht', up⟩ := of_ascend_succ hu
  obtain rfl : t = t' := Option.some.inj (ht.symm.trans ht')
  exact up

/-- **What ends a walk** is the superclass of the last type: there is none, or it cannot be determined, or it
was met before. -/
theorem last_cases {node : TypeNode} (hw : h.WellFormed) (hc : h.Climb met c types ending) (new : c ∉ met)
    (there : h.node? c = some node) :
    ∃ last, types.getLast? = some last ∧
      ((h.superclass last = .ok none ∧ ending = none) ∨
        (∃ e, h.superclass last = .error e ∧ ending = some e) ∨
        ∃ t, h.superclass last = .ok (some t) ∧ (t ∈ met ∨ t ∈ types) ∧ ending = some (.cycle t)) := by
  induction hc generalizing node with
  | again old => exact absurd old new
  | foreign _ e =>
    obtain ⟨absent, -⟩ | ⟨_, _, _, _, _, he⟩ := of_superclass_error e
    · cases there.symm.trans absent
    · cases he
  | broken _ e => exact ⟨_, rfl, .inr (.inl ⟨_, e, rfl⟩)⟩
  | root _ e => exact ⟨_, rfl, .inl ⟨e, rfl⟩⟩
  | @up met c p types ending _ e rest ih =>
    by_cases old : p ∈ c :: met
    · -- the walk comes back to `p`, so `c` is the last type
      obtain ⟨rfl, rfl⟩ := rest.unique (.again old)
      refine ⟨c, rfl, .inr (.inr ⟨p, e, ?_, rfl⟩)⟩
      rcases List.mem_cons.mp old with rfl | old
      · exact .inr List.mem_cons_self
      · exact .inl old
    · obtain ⟨node', there'⟩ := Hierarchy.exists_node? (hw.superclass_lt e)
      obtain ⟨last, hlast, cases⟩ := ih old there'
      refine ⟨last, by simp [List.getLast?_cons, hlast], ?_⟩
      rcases cases with root | broken | ⟨t, up, old, he⟩
      · exact .inl root
      · exact .inr (.inl broken)
      · refine .inr (.inr ⟨t, up, ?_, he⟩)
        rcases old with old | old
        · rcases List.mem_cons.mp old with rfl | old
          · exact .inr List.mem_cons_self
          · exact .inl old
        · exact .inr (List.mem_cons_of_mem c old)

/-- A walk from a type fails as the superclass of its last type fails, or with a circle if that was met, and in
no other way. -/
theorem exists_last {node : TypeNode} (hw : h.WellFormed) (hc : h.Climb [] c types ending)
    (there : h.node? c = some node) :
    ∃ last, types.getLast? = some last ∧ ∀ e, ending = some e ↔ h.superclass last = .error e ∨
      ∃ t ∈ types, h.superclass last = .ok (some t) ∧ e = .cycle t := by
  obtain ⟨last, hlast, ⟨root, rfl⟩ | ⟨e, stuck, rfl⟩ | ⟨t, up, old, rfl⟩⟩ :=
    hc.last_cases hw List.not_mem_nil there
  · exact ⟨last, hlast, by simp [root]⟩
  · exact ⟨last, hlast, by simp [stuck]⟩
  · have ht : t ∈ types := old.resolve_left List.not_mem_nil
    refine ⟨last, hlast, fun e => ?_⟩
    simp only [up]
    constructor
    · rintro ⟨⟩
      exact .inr ⟨t, ht, rfl, rfl⟩
    · rintro (he | ⟨u, -, same, rfl⟩)
      · cases he
      · cases same
        rfl

end Climb

end Hierarchy

namespace Scope

variable {root : Option TypeId} {s : Scope}

/-- **What a walk gives**, without end: the types that are reached from superclass to superclass, all different, then
at most one failure, then nothing.  The failure is that of the last edge, or a circle through the first type
that comes again, and the chain fails with it. -/
theorem Reachable.walk_items (hs : s.Reachable root) (c : Handle) :
    ∃ (types : List Handle) (ending : Option ResolveError),
      (∀ n t, types[n]? = some t → (Ascent.start c).item s.hierarchy n = some (.ok t)) ∧
      (Ascent.start c).item s.hierarchy types.length = ending.map .error ∧
      (∀ n, types.length < n → (Ascent.start c).item s.hierarchy n = none) ∧
      types.Nodup ∧
      ((s.ask (.chain c)).1 = .ok (.handles types) ↔ ending = none) ∧
      (∀ e, (s.ask (.chain c)).1 = .error e ↔ ending = some e) ∧
      (c.index < s.hierarchy.size →
        types.head? = some c ∧
        (∀ n t u, types[n]? = some t → types[n + 1]? = some u →
          (s.ask (.superclass t)).1 = .ok (.handle (some u))) ∧
        (∀ t, t ∈ types ↔ Relation.ReflTransGen
          (fun t u => (s.ask (.superclass t)).1 = .ok (.handle (some u))) c t) ∧
        ∃ last, types.getLast? = some last ∧ ∀ e, ending = some e ↔
          (s.ask (.superclass last)).1 = .error e ∨
            ∃ t ∈ types, (s.ask (.superclass last)).1 = .ok (.handle (some t)) ∧ e = .cycle t) := by
  have hw := hs.hierarchy.wellFormed
  simp only [hs.ask_superclass_iff, hs.ask_superclass_error_iff, hs.ask_chain_iff, hs.ask_chain_error_iff]
  obtain ⟨types, ending, hc⟩ := Hierarchy.exists_climb s.hierarchy [] c
  refine ⟨types, ending, fun n t => hc.item_of_getElem?, hc.item_length, fun n => hc.item_of_length_lt,
    hc.nodup, ?_, fun e => ?_, fun known => ?_⟩
  · rw [Hierarchy.chain_eq hc]
    cases ending <;> simp
  · rw [Hierarchy.chain_eq hc]
    cases ending <;> simp
  · obtain ⟨node, there⟩ := Hierarchy.exists_node? known
    refine ⟨?_, fun n t u => hc.superclass_of_getElem?, fun t => ?_, hc.exists_last hw there⟩
    · obtain ⟨more, rfl⟩ := hc.starts List.not_mem_nil there
      rfl
    · rw [hc.mem_iff_above hw there, Hierarchy.above_iff_reflTransGen]

/-- The walk from the type below the circle gives three types and one failure, and nothing after that. -/
theorem walk_items_belowCircle :
    belowCircle.Reachable none ∧ (⟨0⟩ : Handle).index < belowCircle.hierarchy.size ∧
      (Ascent.start ⟨0⟩).item belowCircle.hierarchy 2 = some (.ok ⟨2⟩) ∧
      (Ascent.start ⟨0⟩).item belowCircle.hierarchy 3 = some (.error (.cycle ⟨1⟩)) ∧
      ∀ n, 3 < n → (Ascent.start ⟨0⟩).item belowCircle.hierarchy n = none := by
  have reachable : belowCircle.Reachable none := reachable_loaded none _
  have known : (⟨0⟩ : Handle).index < belowCircle.hierarchy.size := by decide +kernel
  have third : (Ascent.start ⟨0⟩).item belowCircle.hierarchy 2 = some (.ok ⟨2⟩) := by decide +kernel
  have failed : (Ascent.start ⟨0⟩).item belowCircle.hierarchy 3 = some (.error (.cycle ⟨1⟩)) := by
    decide +kernel
  obtain ⟨types, ending, met, -, nothing, -⟩ := reachable.walk_items ⟨0⟩
  refine ⟨reachable, known, third, failed, fun n hn => nothing n ?_⟩
  by_contra more
  have ht : types[3]? = some types[3] := List.getElem?_eq_getElem (by omega)
  cases failed.symm.trans (met 3 _ ht)

end Scope

end Lineage
