import Lineage.Hierarchy.Growth
import Lineage.Hierarchy.Member
import Lineage.Proofs.Edge

/-!
# Well-formed hierarchies

In a hierarchy that arises by adding types, each handle up to the size is good and no other, the type
behind a handle is a declaration that was settled under it, and the handles in its ancestry are
earlier ones.  The index of identities needs no clause of its own: a roster keeps it coherent.

Main facts: `Reachable.wellFormed`, `WellFormed.find?_eq_some_iff` (identities and handles are inverse
to each other), `WellFormed.declaring_field` and `WellFormed.declaring_method`, and
`WellFormed.superclass_lt` and `WellFormed.interface_lt` (an edge leads to a type of the hierarchy).
-/

namespace Lineage.Hierarchy

variable {root : Option TypeId} {h h' : Hierarchy} {c k p : Handle} {node : TypeNode}
  {d : Declaration} {id : TypeId}

section Nodes

/-- The good handles are those below the size. -/
theorem node?_eq_none_iff : h.node? c = none ↔ h.size ≤ c.index := by
  rw [node?, Roster.at?, Array.getElem?_eq_none_iff]
  rfl

theorem lt_size_of_node? (e : h.node? c = some node) : c.index < h.size := by
  have : h.node? c ≠ none := by simp [e]
  rw [ne_eq, node?_eq_none_iff] at this
  omega

theorem exists_node? (hc : c.index < h.size) : ∃ node, h.node? c = some node := by
  cases e : h.node? c with
  | none =>
    have := node?_eq_none_iff.mp e
    omega
  | some node => exact ⟨node, rfl⟩

end Nodes

/-- What holds of each hierarchy that arises by adding types: no more types than handles, and behind
each handle a declaration settled under it that refers to earlier handles only. -/
structure WellFormed (h : Hierarchy) : Prop where
  size_le : h.size ≤ Handle.unassigned.index
  settled : ∀ {c : Handle} {node : TypeNode}, h.node? c = some node →
    ∃ d : Declaration, node = d.settle c ∧ ∀ a ∈ d.ancestry.handles, a.index < c.index

/-! ### Adding types -/

theorem wellFormed_empty (root : Option TypeId) : (empty root).WellFormed where
  size_le := Nat.zero_le _
  settled e := absurd (lt_size_of_node? e) (Nat.not_lt_zero _)

theorem WellFormed.add (hw : h.WellFormed) (e : h.add d = .ok (k, h')) : h'.WellFormed := by
  obtain ⟨-, room, -, known⟩ := accept_ok (add_ok e).1
  refine ⟨?_, ?_⟩
  · rw [size_add e]
    exact room
  · intro c node hnode
    rw [node?_add e] at hnode
    by_cases hc : c = k
    · rw [if_pos hc] at hnode
      obtain rfl := Option.some.inj hnode
      refine ⟨d, by rw [hc], fun a ha => ?_⟩
      rw [hc, index_of_add e]
      exact known a ha
    · rw [if_neg hc] at hnode
      exact hw.settled hnode

theorem Reachable.wellFormed (hr : h.Reachable root) : h.WellFormed := by
  induction hr with
  | empty => exact wellFormed_empty root
  | add _ e ih => exact ih.add e

theorem Reachable.implicitRoot_eq (hr : h.Reachable root) : h.implicitRoot = root := by
  induction hr with
  | empty => rfl
  | add _ e ih => rw [implicitRoot_add e, ih]

/-! ### What is well-formed -/

namespace WellFormed

theorem index_ofIndex (hw : h.WellFormed) {i : Nat} (hi : i < h.size) :
    (Handle.ofIndex i).index = i := by
  apply Handle.index_ofIndex
  have hle := hw.size_le
  have := Handle.unassigned.number.toNat_lt
  simp only [Handle.index] at hle
  simp only [UInt32.size]
  omega

/-- An identity is found at a handle if the type behind the handle has that identity. -/
theorem find?_eq_some_iff (hw : h.WellFormed) :
    h.find? id = some c ↔ ∃ node, h.node? c = some node ∧ node.id = id := by
  rw [find?, Option.map_eq_some_iff]
  constructor
  · rintro ⟨i, hi, rfl⟩
    obtain ⟨node, hnode, hid⟩ := Roster.at?_of_place? hi
    have : i < h.size := (Array.getElem?_eq_some_iff.mp hnode).1
    refine ⟨node, ?_, hid⟩
    rw [node?, hw.index_ofIndex this]
    exact hnode
  · rintro ⟨node, hnode, rfl⟩
    exact ⟨c.index, Roster.place?_of_at? hnode, Handle.ofIndex_index c⟩

/-- Two identities are not found at one handle. -/
theorem id_eq_of_find? (hw : h.WellFormed) {id' : TypeId} (e : h.find? id = some c)
    (e' : h.find? id' = some c) : id = id' := by
  obtain ⟨node, hnode, rfl⟩ := hw.find?_eq_some_iff.mp e
  obtain ⟨node', hnode', rfl⟩ := hw.find?_eq_some_iff.mp e'
  rw [Option.some.inj (hnode.symm.trans hnode')]

theorem lt_size_of_find? (hw : h.WellFormed) (e : h.find? id = some c) : c.index < h.size := by
  obtain ⟨node, hnode, -⟩ := hw.find?_eq_some_iff.mp e
  exact lt_size_of_node? hnode

theorem handles_lt (hw : h.WellFormed) (e : h.node? c = some node) {a : Handle}
    (ha : a ∈ node.ancestry.handles) : a.index < c.index := by
  obtain ⟨d, rfl, earlier⟩ := hw.settled e
  exact earlier a ha

/-- A type carries its own handle. -/
theorem handle_eq (hw : h.WellFormed) (e : h.node? c = some node) : node.handle = c := by
  obtain ⟨d, rfl, -⟩ := hw.settled e
  rfl

/-- The fields of a type carry its handle. -/
theorem declaring_field (hw : h.WellFormed) (e : h.node? c = some node) {f : Field}
    (hf : f ∈ node.members.fields) : f.declaring = c := by
  obtain ⟨d, rfl, -⟩ := hw.settled e
  have hf : f ∈ (d.members.withOwner c).fields := hf
  rw [Members.fields_withOwner] at hf
  obtain ⟨f', -, rfl⟩ := List.mem_map.mp hf
  rfl

/-- So do its methods. -/
theorem declaring_method (hw : h.WellFormed) (e : h.node? c = some node) {m : Method}
    (hm : m ∈ node.members.methods) : m.declaring = c := by
  obtain ⟨d, rfl, -⟩ := hw.settled e
  have hm : m ∈ (d.members.withOwner c).methods := hm
  rw [Members.methods_withOwner] at hm
  obtain ⟨m', -, rfl⟩ := List.mem_map.mp hm
  rfl

/-- A field that a type declares has that type as its owner, and the type is there. -/
theorem declaring_of_mem_fields (hw : h.WellFormed) {f : Field}
    (hf : f ∈ (h.ownMembers c).fields) : f.declaring = c ∧ c.index < h.size := by
  cases hn : h.node? c with
  | none =>
    rw [ownMembers_of_none hn] at hf
    exact absurd hf List.not_mem_nil
  | some node =>
    rw [ownMembers_of_some hn] at hf
    exact ⟨hw.declaring_field hn hf, lt_size_of_node? hn⟩

/-- So does a method. -/
theorem declaring_of_mem_methods (hw : h.WellFormed) {m : Method}
    (hm : m ∈ (h.ownMembers c).methods) : m.declaring = c ∧ c.index < h.size := by
  cases hn : h.node? c with
  | none =>
    rw [ownMembers_of_none hn] at hm
    exact absurd hm List.not_mem_nil
  | some node =>
    rw [ownMembers_of_some hn] at hm
    exact ⟨hw.declaring_method hn hm, lt_size_of_node? hn⟩

/-- A superclass is a type of the hierarchy. -/
theorem superclass_lt (hw : h.WellFormed) (e : h.superclass c = .ok (some p)) :
    p.index < h.size := by
  obtain ⟨node, hnode, ⟨is, hs⟩ | ⟨id, -, hp⟩⟩ := of_superclass_some e
  · have hp : p ∈ node.ancestry.handles := by simp [hs, Ancestry.handles]
    exact Nat.lt_trans (hw.handles_lt hnode hp) (lt_size_of_node? hnode)
  · exact hw.lt_size_of_find? hp

/-- An interface is a type of the hierarchy. -/
theorem interface_lt (hw : h.WellFormed) {is : List Handle} {i : Handle}
    (e : h.interfaces c = .ok is) (hi : i ∈ is) : i.index < h.size := by
  obtain ⟨node, hnode, recorded | ⟨id, -, found⟩⟩ := of_mem_interfaces e hi
  · exact Nat.lt_trans (hw.handles_lt hnode recorded) (lt_size_of_node? hnode)
  · exact hw.lt_size_of_find? found

end WellFormed

end Lineage.Hierarchy
