import Lineage.Hierarchy.Basic

/-!
# Growth of a hierarchy

A type is added under the next handle, or refused for one of three reasons.  Main facts: `accept_ok`
(what it takes to be accepted), and `node?_add` and `find?_add` (one more type is there, all others
are as before).
-/

namespace Lineage.Hierarchy

/-- The handle of a type that is declared next, or the reason why it cannot be.  A taken identity is
noticed before a lack of handles, and that before an unknown ancestor; of the ancestors the first
unknown one is named, with the superclass first. -/
def accept (h : Hierarchy) (d : Declaration) : Except DeclareError Handle :=
  match h.find? d.id with
  | some existing => .error (.duplicateType d.id existing)
  | none =>
    if h.size < Handle.unassigned.index then
      match d.ancestry.handles.find? fun c => h.size ≤ c.index with
      | some ancestor => .error (.unknownAncestor d.id ancestor)
      | none => .ok (.ofIndex h.size)
    else
      .error .tooManyTypes

/-- The hierarchy with one more type, and the handle of that type. -/
def add (h : Hierarchy) (d : Declaration) : Except DeclareError (Handle × Hierarchy) :=
  (h.accept d).map fun c => (c, { h with nodes := h.nodes.add (d.settle c) })

/-- The hierarchies that arise from an empty one by adding types. -/
inductive Reachable (implicitRoot : Option TypeId) : Hierarchy → Prop where
  | empty : Reachable implicitRoot (.empty implicitRoot)
  | add {h h' : Hierarchy} {d : Declaration} {c : Handle} :
      Reachable implicitRoot h → h.add d = .ok (c, h') → Reachable implicitRoot h'

section Accepted

variable {h h' : Hierarchy} {d : Declaration} {c : Handle}

/-- A type is accepted if its identity is new, a handle is left, and its ancestors by handle are
there. -/
theorem accept_ok (e : h.accept d = .ok c) :
    h.find? d.id = none ∧ h.size < Handle.unassigned.index ∧ c = .ofIndex h.size ∧
      ∀ a ∈ d.ancestry.handles, a.index < h.size := by
  unfold accept at e
  split at e
  · cases e
  · rename_i fresh
    split at e
    · rename_i room
      split at e
      · cases e
      · rename_i known
        cases e
        refine ⟨fresh, room, rfl, fun a ha => ?_⟩
        have := List.find?_eq_none.mp known a ha
        simp only [decide_eq_true_eq] at this
        omega
    · cases e

theorem add_ok (e : h.add d = .ok (c, h')) :
    h.accept d = .ok c ∧ h' = { h with nodes := h.nodes.add (d.settle c) } := by
  unfold add at e
  cases ha : h.accept d with
  | error r =>
    rw [ha] at e
    cases e
  | ok c' =>
    rw [ha] at e
    cases e
    exact ⟨rfl, rfl⟩

/-- The handle of the new type is the next position. -/
theorem index_of_add (e : h.add d = .ok (c, h')) : c.index = h.size := by
  obtain ⟨-, room, rfl, -⟩ := accept_ok (add_ok e).1
  apply Handle.index_ofIndex
  have := Handle.unassigned.number.toNat_lt
  simp only [Handle.index] at room
  simp only [UInt32.size]
  omega

/-- The implicit root is settled from the start. -/
theorem implicitRoot_add (e : h.add d = .ok (c, h')) : h'.implicitRoot = h.implicitRoot := by
  rw [(add_ok e).2]

private theorem place?_of_add (e : h.add d = .ok (c, h')) : h.nodes.place? (d.settle c).id = none := by
  have := (accept_ok (add_ok e).1).1
  rwa [find?, Option.map_eq_none_iff] at this

theorem size_add (e : h.add d = .ok (c, h')) : h'.size = h.size + 1 := by
  rw [(add_ok e).2]
  exact Roster.size_add (place?_of_add e)

/-- The declared type stands behind all types that were there. -/
theorem types_add (e : h.add d = .ok (c, h')) : h'.types = h.types ++ [d.settle c] := by
  rw [(add_ok e).2]
  show (h.nodes.add (d.settle c)).items.toList = _
  rw [Roster.items_add (place?_of_add e), Array.toList_push]
  rfl

/-- Behind the new handle is the declared type; behind every other handle is what was there. -/
theorem node?_add (e : h.add d = .ok (c, h')) (x : Handle) :
    h'.node? x = if x = c then some (d.settle c) else h.node? x := by
  have hc := index_of_add e
  rw [(add_ok e).2]
  show (h.nodes.add (d.settle c)).at? x.index = _
  rw [Roster.at?_add (place?_of_add e)]
  by_cases hx : x = c
  · rw [if_pos hx, if_pos (by rw [hx, hc]; rfl)]
  · rw [if_neg hx, if_neg]
    · rfl
    · intro hi
      apply hx
      rw [← Handle.ofIndex_index x, ← Handle.ofIndex_index c, hc]
      exact congrArg Handle.ofIndex hi

/-- The declared identity is found at the new handle; every other identity where it was. -/
theorem find?_add (e : h.add d = .ok (c, h')) (id : TypeId) :
    h'.find? id = if id = d.id then some c else h.find? id := by
  have hc : Handle.ofIndex h.nodes.size = c := (accept_ok (add_ok e).1).2.2.1.symm
  have fresh := place?_of_add e
  rw [(add_ok e).2]
  show ((h.nodes.add (d.settle c)).place? id).map Handle.ofIndex = _
  by_cases hid : id = d.id
  · subst hid
    have found := Roster.place?_add_self fresh
    rw [if_pos rfl]
    exact (congrArg (Option.map Handle.ofIndex) found).trans (congrArg some hc)
  · rw [if_neg hid, Roster.place?_add_of_ne fresh hid]
    rfl

end Accepted

end Lineage.Hierarchy
