import Lineage.Proofs.Memoization
import Lineage.Proofs.Arena
import Lineage.Proofs.Nearest
import Mathlib.Data.List.Nodup
import Mathlib.Tactic.Common

/-!
# What a hierarchy keeps

The types of a hierarchy stand in the order of their handles, each is found under its own identity and
under no other, its members name it as their owner, and what it refers to by handle came before it.
Types are only ever appended: whatever is done later, the types of today are the first ones then.

Main facts: `nodup_ids`, `types_run` (a run of operations appends types) and `find?_run`; at
the end all of it for the scopes that arise by operations.
-/

namespace Lineage

namespace Hierarchy

variable {h h' : Hierarchy} {c : Handle} {i : Nat} {node : TypeNode} {id : TypeId}

/-- The types in order, read by handle. -/
theorem getElem?_types (h : Hierarchy) (c : Handle) : h.types[c.index]? = h.node? c := by
  simp [types, Roster.toList, node?, Roster.at?]

/-- No identity is that of two types. -/
theorem nodup_ids (h : Hierarchy) : (h.types.map (·.id)).Nodup := h.nodes.nodup_keys

namespace WellFormed

/-- The type at a position is the one behind the handle with that position. -/
theorem node?_of_getElem? (hw : h.WellFormed) (e : h.types[i]? = some node) :
    (Handle.ofIndex i).index = i ∧ h.node? (.ofIndex i) = some node := by
  have inside : i < h.size := (List.getElem?_eq_some_iff.mp e).1
  have index := hw.index_ofIndex inside
  refine ⟨index, ?_⟩
  rw [← getElem?_types, index, e]

/-- What is found in a hierarchy is found in every one that has more types at its end. -/
theorem find?_of_prefix (hw : h.WellFormed) (hw' : h'.WellFormed) (more : h.types <+: h'.types)
    (e : h.find? id = some c) : h'.find? id = some c := by
  obtain ⟨node, there, hid⟩ := hw.find?_eq_some_iff.mp e
  refine hw'.find?_eq_some_iff.mpr ⟨node, ?_, hid⟩
  rw [← getElem?_types] at there ⊢
  obtain ⟨rest, all⟩ := more
  rw [← all, List.getElem?_append_left (List.getElem?_eq_some_iff.mp there).1, there]

end WellFormed

end Hierarchy

namespace Scope

variable {root : Option TypeId} {s : Scope}

/-- An operation appends a type or leaves the types as they are. -/
theorem types_perform (s : Scope) (o : Operation) :
    s.hierarchy.types <+: (s.perform o).2.hierarchy.types := by
  cases o with
  | ask q => exact List.prefix_refl _
  | add d =>
    show s.hierarchy.types <+: (s.add d).2.hierarchy.types
    obtain ⟨c, h', ha, added⟩ | ⟨r, -, refused⟩ := add_cases s d
    · rw [added, Hierarchy.types_add ha]
      exact List.prefix_append _ _
    · simp only [refused, List.prefix_rfl]

theorem types_run (s : Scope) (operations : List Operation) :
    s.hierarchy.types <+: (s.run operations).2.hierarchy.types := by
  induction operations generalizing s with
  | nil => exact List.prefix_refl _
  | cons o rest ih => exact (types_perform s o).trans (ih (s.perform o).2)

theorem find?_run {id : TypeId} {c : Handle} (hs : s.Reachable root)
    (e : s.hierarchy.find? id = some c) (operations : List Operation) :
    (s.run operations).2.hierarchy.find? id = some c :=
  hs.hierarchy.wellFormed.find?_of_prefix (hs.run operations).hierarchy.wellFormed
    (types_run s operations) e

/-- **What holds of the types of a scope, at any time.**  A type carries the handle of its position, owns its
members and refers to earlier types only; identities and positions correspond.  All of this is settled,
whatever operations follow. -/
theorem Reachable.types_settled (hs : s.Reachable root) (operations : List Operation) :
    (∀ (i : Nat) (node : TypeNode), s.hierarchy.types[i]? = some node →
        node.handle = .ofIndex i ∧ node.handle.index = i ∧ node.handle ≠ .unassigned ∧
        (∀ f ∈ node.members.fields, f.declaring = node.handle) ∧
        (∀ m ∈ node.members.methods, m.declaring = node.handle) ∧
        ∀ a ∈ node.ancestry.handles, a.index < i) ∧
      (∀ d c, (s.add d).1 = .ok c → c.index = s.hierarchy.types.length ∧ c ≠ .unassigned ∧
        (s.add d).2.hierarchy.types = s.hierarchy.types ++ [d.settle c]) ∧
      (∀ id c, s.hierarchy.find? id = some c ↔
        ∃ node : TypeNode, s.hierarchy.types[c.index]? = some node ∧ node.id = id) ∧
      (s.hierarchy.types.map (·.id)).Nodup ∧
      s.hierarchy.types <+: (s.run operations).2.hierarchy.types ∧
      ∀ id c, s.hierarchy.find? id = some c →
        (s.run operations).2.hierarchy.find? id = some c := by
  have hw := hs.hierarchy.wellFormed
  have assigned {c : Handle} (inside : c.index < Handle.unassigned.index) : c ≠ .unassigned := by
    rintro rfl
    exact Nat.lt_irrefl _ inside
  refine ⟨?_, ?_, ?_, s.hierarchy.nodup_ids, types_run s operations, fun id c e => find?_run hs e operations⟩
  · intro i node e
    obtain ⟨index, there⟩ := hw.node?_of_getElem? e
    have inside : (Handle.ofIndex i).index < s.hierarchy.size := Hierarchy.lt_size_of_node? there
    rw [hw.handle_eq there]
    refine ⟨rfl, index, assigned (Nat.lt_of_lt_of_le inside hw.size_le), ?_, ?_, ?_⟩
    · exact fun f hf => hw.declaring_field there hf
    · exact fun m hm => hw.declaring_method there hm
    · intro a ha
      have := hw.handles_lt there ha
      rwa [index] at this
  · intro d c e
    have added := hierarchy_add_of_ok e
    have next := Hierarchy.index_of_add added
    have room := (Hierarchy.accept_ok (Hierarchy.add_ok added).1).2.1
    exact ⟨next, assigned (next ▸ room), Hierarchy.types_add added⟩
  · intro id c
    simp only [hw.find?_eq_some_iff, Hierarchy.getElem?_types]

/-- A type with a field and a method that an analysis puts together from the first type of all. -/
def madeUp : Declaration :=
  { Declaration.new ⟨⟨.empty⟩, ⟨2⟩⟩ (.synthetic (some ⟨0⟩) [⟨0⟩]) with
    members := ⟨Roster.empty.add (.new ⟨1⟩ .empty .empty none),
      Roster.empty.add (.new ⟨⟨2⟩, .empty⟩ .empty none)⟩ }

/-- A compiled type, and the made-up type below it. -/
def furnished : Scope := loaded none [.new ⟨⟨.empty⟩, ⟨1⟩⟩ (.binary none []), madeUp]

/-- Of three more declarations one repeats an identity and one refers to a handle that was not given
out; the third is accepted. -/
def moreDeclarations : List Operation :=
  [.add (.new madeUp.id (.binary none [])),
    .add (.new ⟨⟨.empty⟩, ⟨3⟩⟩ (.synthetic (some ⟨7⟩) [])),
    .add (.new ⟨⟨.empty⟩, ⟨3⟩⟩ (.source none []))]

/-- The made-up type has its place, its field and its method name it, the handles of its ancestors are
smaller, and it stays there beside the one type that is accepted later. -/
theorem types_settled_furnished :
    furnished.Reachable none ∧ furnished.hierarchy.types[1]? = some (madeUp.settle ⟨1⟩) ∧
      (madeUp.settle ⟨1⟩).members.fields.length = 1 ∧
      (madeUp.settle ⟨1⟩).members.methods.length = 1 ∧
      (madeUp.settle ⟨1⟩).ancestry.handles = [⟨0⟩, ⟨0⟩] ∧
      (∀ f ∈ (madeUp.settle ⟨1⟩).members.fields, f.declaring = ⟨1⟩) ∧
      (∀ m ∈ (madeUp.settle ⟨1⟩).members.methods, m.declaring = ⟨1⟩) ∧
      (∀ a ∈ (madeUp.settle ⟨1⟩).ancestry.handles, a.index < 1) ∧
      (furnished.run moreDeclarations).2.hierarchy.types.length = 3 ∧
      furnished.hierarchy.types <+: (furnished.run moreDeclarations).2.hierarchy.types := by
  have reachable : furnished.Reachable none := reachable_loaded none _
  have there : furnished.hierarchy.types[1]? = some (madeUp.settle ⟨1⟩) := by decide +kernel
  obtain ⟨settled, -, -, -, kept, -⟩ := reachable.types_settled moreDeclarations
  obtain ⟨-, -, -, fields, methods, earlier⟩ := settled 1 _ there
  exact ⟨reachable, there, by decide +kernel, by decide +kernel, by decide +kernel, fields, methods,
    earlier, by decide +kernel, kept⟩

end Scope

end Lineage
