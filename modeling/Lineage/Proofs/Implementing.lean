import Lineage.Proofs.Preorder

/-!
# What a type implements

A type implements what is reached from a type above it by one or more steps to a direct interface.  The steps to
superclasses all come first.  So what a type implements is implemented by whatever implements that type as an
interface, as far as it is reached by steps to interfaces; but what the type has from a superclass of its own, or
from the implicit root, is not handed on.  Implementing is no transitive relation.

Main facts: `WellFormed.mem_interfaceClosure_iff` and `WellFormed.implements_iff_reached` (what is implemented),
`WellFormed.implements_of_path` (what is handed on) and `WellFormed.implements_through` (what may not be); at the
end the answers of a scope.
-/

namespace Lineage

namespace Hierarchy

variable {h : Hierarchy} {c p i j k t : Handle} {types is : List Handle}

/-! ### Interfaces and their closure -/

theorem node?_of_interfaceClosure_ok (e : h.interfaceClosure c = .ok types) : ∃ node, h.node? c = some node := by
  cases hn : h.node? c with
  | none => cases e.symm.trans (interfaceClosure_of_foreign hn)
  | some node => exact ⟨node, rfl⟩

/-- The interfaces along a chain are the direct interfaces of the types above. -/
theorem WellFormed.mem_chainInterfaces_iff (hw : h.WellFormed) (e : h.chainInterfaces c = .ok is) :
    i ∈ is ↔ ∃ p, h.Above c p ∧ h.Extends p i := by
  refine ⟨exists_extends_of_chainInterfaces e, ?_⟩
  rintro ⟨p, above, own, direct, hi⟩
  obtain ⟨types, chain, along⟩ := bind_eq_ok_iff.mp e
  obtain ⟨declared, each, union⟩ := bind_eq_ok_iff.mp along
  cases union
  have hc := climb_of_chain_eq_ok chain
  have start : c ∈ types := by
    cases hc with
    | root new root => exact List.mem_cons_self
    | up new up rest => exact List.mem_cons_self
  obtain ⟨own', listed, direct'⟩ := exists_mem_of_mapM each (hc.mem_of_above hw start above)
  cases direct.symm.trans direct'
  exact List.mem_eraseDups.mpr (List.mem_flatten.mpr ⟨own, listed, hi⟩)

/-- The closure holds what is reached from a type above by one or more steps to an interface. -/
theorem WellFormed.mem_interfaceClosure_iff (hw : h.WellFormed) (e : h.interfaceClosure c = .ok types) :
    t ∈ types ↔ ∃ p, h.Above c p ∧ Relation.TransGen h.Extends p t := by
  obtain ⟨seed, list, closure⟩ := bind_eq_ok_iff.mp e
  obtain ⟨reached, -⟩ := of_closureFrom_ok (nodup_of_chainInterfaces list) closure
  rw [reached t]
  constructor
  · rintro ⟨i, hi, path⟩
    obtain ⟨p, above, first⟩ := (hw.mem_chainInterfaces_iff list).mp hi
    exact ⟨p, above, .head' first path⟩
  · rintro ⟨p, above, path⟩
    obtain ⟨i, first, rest⟩ := Relation.TransGen.head'_iff.mp path
    exact ⟨i, (hw.mem_chainInterfaces_iff list).mpr ⟨p, above, first⟩, rest⟩

/-! ### Implementing -/

theorem exists_interfaceClosure_of_implements {b : Bool} (e : h.implements c i = .ok b) :
    ∃ types, h.interfaceClosure c = .ok types := by
  obtain ⟨types, closure, -⟩ := map_eq_ok_iff.mp e
  exact ⟨types, closure⟩

/-- **What a type implements** is reached by steps to superclasses and then steps to interfaces. -/
theorem WellFormed.implements_iff_reached (hw : h.WellFormed) (e : h.interfaceClosure c = .ok types) :
    h.implements c i = .ok true ↔ ∃ p, h.Above c p ∧ Relation.TransGen h.Extends p i := by
  rw [implements_iff e, hw.mem_interfaceClosure_iff e]

/-- A type implements what is reached from something that it implements by steps to interfaces. -/
theorem WellFormed.implements_of_path (hw : h.WellFormed) (direct : h.implements c i = .ok true)
    (path : Relation.ReflTransGen h.Extends i j) : h.implements c j = .ok true := by
  obtain ⟨types, closure⟩ := exists_interfaceClosure_of_implements direct
  obtain ⟨p, above, first⟩ := (hw.implements_iff_reached closure).mp direct
  exact (hw.implements_iff_reached closure).mpr ⟨p, above, first.trans_left path⟩

/-- Nothing lies above a type without a superclass but the type itself. -/
theorem Above.eq_of_root (above : h.Above c t) (top : h.superclass c = .ok none) : t = c := by
  refine above.induction (P := (· = c)) rfl ?_
  rintro u v rfl up
  cases top.symm.trans up

/-- **Through an interface**: what `i` implements it reaches by steps to interfaces alone, or from an interface
that a proper superclass of `i` declares. -/
theorem WellFormed.implements_through (hw : h.WellFormed) (further : h.implements i j = .ok true) :
    Relation.ReflTransGen h.Extends i j ∨
      ∃ p k, h.Above i p ∧ p ≠ i ∧ h.Extends p k ∧ Relation.ReflTransGen h.Extends k j := by
  obtain ⟨types, closure⟩ := exists_interfaceClosure_of_implements further
  obtain ⟨p, above, path⟩ := (hw.implements_iff_reached closure).mp further
  by_cases same : p = i
  · exact .inl (same ▸ path.to_reflTransGen)
  · obtain ⟨k, declared, rest⟩ := Relation.TransGen.head'_iff.mp path
    exact .inr ⟨p, k, above, same, declared, rest⟩

end Hierarchy

namespace Scope

variable {root : Option TypeId} {s : Scope} {c i j : Handle}

/-- Two interfaces, of which the implicit root has the first and a source interface the second; and a compiled
type without a superclass that has the source interface. -/
def detached : Scope :=
  let named (n : UInt32) : TypeId := ⟨⟨.empty⟩, ⟨n⟩⟩
  loaded (some (named 2)) [.new (named 1) (.binary none []), .new (named 2) (.source none [named 1]),
    .new (named 3) (.binary none []), .new (named 4) (.source none [named 3]),
    .new (named 5) (.binary none [named 4])]

/-- **Implementing is not transitive.**  The compiled type implements the source interface, which implements the
interface of the implicit root; the compiled type does not. -/
theorem implements_not_transitive :
    ¬ ∀ (root : Option TypeId) (s : Scope) (c i j : Handle), s.Reachable root →
      (s.ask (.implements c i)).1 = .ok (.truth true) → (s.ask (.implements i j)).1 = .ok (.truth true) →
        (s.ask (.implements c j)).1 = .ok (.truth true) := by
  intro law
  have holds := law _ detached ⟨4⟩ ⟨3⟩ ⟨0⟩ (reachable_loaded _ _) (by decide +kernel) (by decide +kernel)
  have fails : (detached.ask (.implements ⟨4⟩ ⟨0⟩)).1 = .ok (.truth false) := by decide +kernel
  cases fails.symm.trans holds

/-- **What is implemented through an interface.**  If `c` implements `i`, it implements what `i` reaches by steps to
direct interfaces, but of what the superclasses of `i` declare it may miss some. -/
theorem Reachable.ask_implements_through (hs : s.Reachable root)
    (direct : (s.ask (.implements c i)).1 = .ok (.truth true))
    (further : (s.ask (.implements i j)).1 = .ok (.truth true)) :
    (∃ b, (s.ask (.implements c j)).1 = .ok (.truth b)) ∧
      (Relation.ReflTransGen (fun t u => ∃ is, (s.ask (.interfaces t)).1 = .ok (.handles is) ∧ u ∈ is) i j →
        (s.ask (.implements c j)).1 = .ok (.truth true)) ∧
      ((s.ask (.superclass i)).1 = .ok (.handle none) →
        (s.ask (.implements c j)).1 = .ok (.truth true)) ∧
      ((s.ask (.implements c j)).1 = .ok (.truth false) →
        ∃ p is k, (s.ask (.inherits i p)).1 = .ok (.truth true) ∧ p ≠ i ∧
          (s.ask (.interfaces p)).1 = .ok (.handles is) ∧ k ∈ is ∧
          (s.ask (.implements c k)).1 = .ok (.truth false) ∧
          Relation.ReflTransGen
            (fun t u => ∃ is, (s.ask (.interfaces t)).1 = .ok (.handles is) ∧ u ∈ is) k j) ∧
      ∀ p is k, (s.ask (.inherits i p)).1 = .ok (.truth true) →
        (s.ask (.interfaces p)).1 = .ok (.handles is) → k ∈ is →
          (s.ask (.implements i k)).1 = .ok (.truth true) := by
  have hw := hs.hierarchy.wellFormed
  have implements (t u : Handle) (b : Bool) :
      (s.ask (.implements t u)).1 = .ok (.truth b) ↔ s.hierarchy.implements t u = .ok b :=
    hs.ask_eq_ok_iff rfl fun _ => Answer.truth.inj
  have inherits (t u : Handle) :
      (s.ask (.inherits t u)).1 = .ok (.truth true) ↔ s.hierarchy.inherits t u = .ok true :=
    hs.ask_eq_ok_iff rfl fun _ => Answer.truth.inj
  have interfaces (t : Handle) (is : List Handle) :
      (s.ask (.interfaces t)).1 = .ok (.handles is) ↔ s.hierarchy.interfaces t = .ok is :=
    hs.ask_eq_ok_iff rfl fun _ => Answer.handles.inj
  rw [implements] at direct further
  simp only [implements, inherits, interfaces, hs.ask_superclass_iff]
  obtain ⟨all, closure⟩ := Hierarchy.exists_interfaceClosure_of_implements direct
  obtain ⟨all', closure'⟩ := Hierarchy.exists_interfaceClosure_of_implements further
  have known (k : Handle) : ∃ b, s.hierarchy.implements c k = .ok b :=
    ⟨_, map_eq_ok_iff.mpr ⟨all, closure, rfl⟩⟩
  refine ⟨known j, hw.implements_of_path direct, fun top => ?_, fun no => ?_, ?_⟩
  · obtain path | ⟨p, k, above, proper, -⟩ := hw.implements_through further
    · exact hw.implements_of_path direct path
    · exact absurd (above.eq_of_root top) proper
  · obtain path | ⟨p, k, above, proper, ⟨is, declared, hk⟩, path⟩ := hw.implements_through further
    · cases no.symm.trans (hw.implements_of_path direct path)
    · obtain ⟨node, there⟩ := Hierarchy.node?_of_interfaceClosure_ok closure'
      have below : s.hierarchy.inherits i p = .ok true :=
        hw.inherits_iff_above.mpr ⟨Hierarchy.lt_size_of_node? there, above⟩
      obtain ⟨b, hb⟩ := known k
      cases b with
      | false => exact ⟨p, is, k, below, proper, declared, hk, hb, path⟩
      | true => cases no.symm.trans (hw.implements_of_path hb path)
  · intro p is k below declared hk
    obtain ⟨-, above⟩ := hw.inherits_iff_above.mp below
    exact (hw.implements_iff_reached closure').mpr ⟨p, above, .single ⟨is, declared, hk⟩⟩

/-- The compiled type implements what the source interface extends; it does not implement what the source
interface has from the implicit root. -/
theorem ask_implements_through_detached :
    detached.Reachable (some ⟨⟨.empty⟩, ⟨2⟩⟩) ∧
      (detached.ask (.implements ⟨4⟩ ⟨3⟩)).1 = .ok (.truth true) ∧
      (detached.ask (.implements ⟨3⟩ ⟨2⟩)).1 = .ok (.truth true) ∧
      (detached.ask (.implements ⟨3⟩ ⟨0⟩)).1 = .ok (.truth true) ∧
      (detached.ask (.implements ⟨4⟩ ⟨2⟩)).1 = .ok (.truth true) ∧
      ∃ p is k, (detached.ask (.inherits ⟨3⟩ p)).1 = .ok (.truth true) ∧ p ≠ ⟨3⟩ ∧
        (detached.ask (.interfaces p)).1 = .ok (.handles is) ∧ k ∈ is ∧
        (detached.ask (.implements ⟨4⟩ k)).1 = .ok (.truth false) := by
  have reachable : detached.Reachable (some ⟨⟨.empty⟩, ⟨2⟩⟩) := reachable_loaded _ _
  have direct : (detached.ask (.implements ⟨4⟩ ⟨3⟩)).1 = .ok (.truth true) := by decide +kernel
  have near : (detached.ask (.implements ⟨3⟩ ⟨2⟩)).1 = .ok (.truth true) := by decide +kernel
  have far : (detached.ask (.implements ⟨3⟩ ⟨0⟩)).1 = .ok (.truth true) := by decide +kernel
  have edge : (detached.ask (.interfaces ⟨3⟩)).1 = .ok (.handles [⟨2⟩]) := by decide +kernel
  have no : (detached.ask (.implements ⟨4⟩ ⟨0⟩)).1 = .ok (.truth false) := by decide +kernel
  obtain ⟨-, handed, -, -, -⟩ := reachable.ask_implements_through direct near
  obtain ⟨-, -, -, kept, -⟩ := reachable.ask_implements_through direct far
  obtain ⟨p, is, k, below, proper, declared, hk, missed, -⟩ := kept no
  exact ⟨reachable, direct, near, far, handed (.single ⟨_, edge, List.mem_cons_self⟩),
    p, is, k, below, proper, declared, hk, missed⟩

end Scope

end Lineage
