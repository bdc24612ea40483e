import Lineage.Proofs.Likeness
import Lineage.Proofs.Memoization
import Lineage.Proofs.Permanence

/-!
# Scopes alongside each other

Two scopes with corresponding types under the same handles.  Declarations that correspond are accepted in both
under one handle, or refused in both for one reason, and questions leave the types as they are; so the scopes
stay alongside each other whatever is done to both.

Main facts: `Alongside.resembles` (the hierarchies are alike), `Alongside.add` and `Alongside.ask` (what one
operation preserves).
-/

namespace Lineage.Correspondence

/-- Each handle stands for itself, and members that correspond do so under any declaring type. -/
structure Steady (r : Correspondence) : Prop extends r.Coherent where
  handle_iff : ∀ {c c' : Handle}, r.handle c c' ↔ c = c'
  field_withOwner : ∀ {f f' : Field} (c : Handle), r.field f f' →
    r.field (f.withOwner c) (f'.withOwner c)
  method_withOwner : ∀ {m m' : Method} (c : Handle), r.method m m' →
    r.method (m.withOwner c) (m'.withOwner c)

/-- Scopes with corresponding types in the same order. -/
structure Alongside (r : Correspondence) (s s' : Scope) : Prop where
  left : ∃ root, s.Reachable root
  right : ∃ root, s'.Reachable root
  root : Option.Rel r.id s.hierarchy.implicitRoot s'.hierarchy.implicitRoot
  types : List.Forall₂ r.Nodes s.hierarchy.types s'.hierarchy.types

variable {r : Correspondence} {s s' : Scope} {d d' : Declaration} {c : Handle}

/-! ### Corresponding declarations -/

/-- Declarations that correspond refer to the same handles. -/
theorem Declarations.handles_eq (hr : r.Steady) (hd : r.Declarations d d') :
    d.ancestry.handles = d'.ancestry.handles := by
  have ancestry := hd.ancestry
  generalize d.ancestry = a at ancestry ⊢
  generalize d'.ancestry = a' at ancestry ⊢
  cases ancestry with
  | source _ _ => rfl
  | binary _ _ => rfl
  | @synthetic c c' is is' superclass interfaces =>
    have same : List.Forall₂ Eq is is' := interfaces.imp fun _ _ => hr.handle_iff.mp
    obtain rfl : is = is' := List.forall₂_eq_eq_eq ▸ same
    obtain ⟨rfl, rfl⟩ | ⟨k, k', rfl, rfl, hk⟩ := rel_cases superclass
    · rfl
    · rw [hr.handle_iff.mp hk]

/-- They become types that correspond. -/
theorem Declarations.settle (hr : r.Steady) (hd : r.Declarations d d') (c : Handle) :
    r.Nodes (d.settle c) (d'.settle c) where
  id := hd.id
  ancestry := hd.ancestry
  members := by
    constructor
    · show List.Forall₂ _ (d.members.withOwner c).fields (d'.members.withOwner c).fields
      rw [Members.fields_withOwner, Members.fields_withOwner]
      exact List.rel_map (fun _ _ hf => hr.field_withOwner c hf) hd.members.fields
    · show List.Forall₂ _ (d.members.withOwner c).methods (d'.members.withOwner c).methods
      rw [Members.methods_withOwner, Members.methods_withOwner]
      exact List.rel_map (fun _ _ hm => hr.method_withOwner c hm) hd.members.methods

namespace Alongside

/-! ### What is there -/

theorem size_eq (hs : r.Alongside s s') : s.hierarchy.size = s'.hierarchy.size :=
  hs.types.length_eq

theorem node (hs : r.Alongside s s') (c : Handle) :
    Option.Rel r.Nodes (s.hierarchy.node? c) (s'.hierarchy.node? c) := by
  rw [← Hierarchy.getElem?_types, ← Hierarchy.getElem?_types]
  exact rel_getElem? hs.types c.index

section Alike

variable (hr : r.Steady) (hs : r.Alongside s s')
include hr hs

/-- Corresponding identities are found at the same handle. -/
theorem find?_eq {i i' : TypeId} (hi : r.id i i') : s.hierarchy.find? i = s'.hierarchy.find? i' := by
  obtain ⟨root, left⟩ := hs.left
  obtain ⟨root', right⟩ := hs.right
  apply Option.ext
  intro c
  rw [left.hierarchy.wellFormed.find?_eq_some_iff, right.hierarchy.wellFormed.find?_eq_some_iff]
  obtain ⟨e, e'⟩ | ⟨k, k', e, e', hk⟩ := rel_cases (hs.node c)
  · simp [e, e']
  · have same : k.id = i ↔ k'.id = i' := Relator.rel_eq hr.id_unique hk.id hi
    simp [e, e', same]

/-- **The hierarchies are alike.** -/
theorem resembles : r.Resembles s.hierarchy s'.hierarchy where
  coherent := hr.toCoherent
  root := hs.root
  find hi := hs.find?_eq hr hi ▸ rel_imp (fun _ _ => hr.handle_iff.mpr) (rel_eq_self _)
  node hc := by
    obtain rfl := hr.handle_iff.mp hc
    exact hs.node _

theorem relates (hl : r.Lawful) : r.Relates s.hierarchy s'.hierarchy :=
  { hs.resembles hr with lawful := hl }

end Alike

/-! ### One operation -/

section Add

variable (hr : r.Steady) (hs : r.Alongside s s') (hd : r.Declarations d d')
include hr hs hd

/-- Declarations that correspond are accepted on both sides under one handle, or refused for one reason. -/
theorem accept : Agrees r.DeclareErrors Eq (s.hierarchy.accept d) (s'.hierarchy.accept d') := by
  have self (c : Handle) : r.handle c c := hr.handle_iff.mpr rfl
  rw [Hierarchy.accept, Hierarchy.accept, hs.find?_eq hr hd.id, hs.size_eq, hd.handles_eq hr]
  split
  · exact .error (.duplicateType hd.id (self _))
  · split
    · split
      · exact .error (.unknownAncestor hd.id (self _))
      · exact .ok rfl
    · exact .error .tooManyTypes

/-- One type more on both sides, under one handle, or none on either. -/
theorem add : Agrees r.DeclareErrors Eq (s.add d).1 (s'.add d').1 ∧
    r.Alongside (s.add d).2 (s'.add d').2 := by
  have accepted := hs.accept hr hd
  generalize accept : s.hierarchy.accept d = x at accepted
  generalize accept' : s'.hierarchy.accept d' = x' at accepted
  cases accepted with
  | error failure =>
    rw [Scope.add_of_error (congrArg (Except.map _) accept),
      Scope.add_of_error (congrArg (Except.map _) accept')]
    exact ⟨.error failure, hs⟩
  | @ok c _ same =>
    obtain rfl := same
    obtain ⟨h, e⟩ : ∃ h, s.hierarchy.add d = .ok (c, h) := ⟨_, congrArg (Except.map _) accept⟩
    obtain ⟨h', e'⟩ : ∃ h', s'.hierarchy.add d' = .ok (c, h') := ⟨_, congrArg (Except.map _) accept'⟩
    obtain ⟨root, left⟩ := hs.left
    obtain ⟨root', right⟩ := hs.right
    have left : (s.add d).2.Reachable root := left.perform (.add d)
    have right : (s'.add d').2.Reachable root' := right.perform (.add d')
    rw [Scope.add_of_ok e] at left ⊢
    rw [Scope.add_of_ok e'] at right ⊢
    refine ⟨.ok rfl, ⟨root, left⟩, ⟨root', right⟩, ?_, ?_⟩
    · show Option.Rel r.id h.implicitRoot h'.implicitRoot
      rw [Hierarchy.implicitRoot_add e, Hierarchy.implicitRoot_add e']
      exact hs.root
    · show List.Forall₂ r.Nodes h.types h'.types
      rw [Hierarchy.types_add e, Hierarchy.types_add e']
      exact List.rel_append hs.types (.cons (hd.settle hr c) .nil)

end Add

/-- Questions leave the types as they are. -/
theorem ask (hs : r.Alongside s s') (q q' : Query Symbol) : r.Alongside (s.ask q).2 (s'.ask q').2 := by
  obtain ⟨root, left⟩ := hs.left
  obtain ⟨root', right⟩ := hs.right
  exact ⟨⟨root, left.perform (.ask q)⟩, ⟨root', right.perform (.ask q')⟩, hs.root, hs.types⟩

end Alongside

end Lineage.Correspondence
