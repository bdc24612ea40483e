import Lineage.Proofs.Defect
import Mathlib.Data.List.Basic

/-!
# What one more type changes

A type that is added can only put an end to a failure that waits for it: to one over its identity, or to
one over its handle (`ResolveError.Awaits`).  Whatever a traversal has met before it answers is still
met, and in the same order, since an edge that could be determined stays what it is.

Main facts: `Climb.grow` and `unless_answer`; at the end the answers of a scope, in which the memo takes
part.
-/

namespace Lineage

/-- A failure that a type with the given identity and handle may put an end to. -/
def ResolveError.Awaits (id : TypeId) (c : Handle) (e : ResolveError) : Prop :=
  e.missing? = some id ∨ e = .unknownType c

namespace Hierarchy

variable {h h' : Hierarchy} {d : Declaration} {k c t : Handle} {node : TypeNode}
  {met types : List Handle} {ending : Option ResolveError}

section Added

variable (added : h.add d = .ok (k, h'))
include added

/-! ### Single types -/

theorem node?_eq_none_of_add : h.node? k = none :=
  node?_eq_none_iff.mpr (Nat.le_of_eq (index_of_add added).symm)

theorem node?_of_ne (hc : c ≠ k) : h'.node? c = h.node? c := by
  rw [node?_add added, if_neg hc]

theorem node?_persists (hn : h.node? c = some node) : h'.node? c = some node := by
  rw [node?_of_ne added, hn]
  rintro rfl
  cases (node?_eq_none_of_add added).symm.trans hn

theorem find?_persists {id : TypeId} {p : Handle} (hf : h.find? id = some p) :
    h'.find? id = some p := by
  rw [find?_add added, if_neg, hf]
  rintro rfl
  cases (accept_ok (add_ok added).1).1.symm.trans hf

theorem find?_stays_absent {id : TypeId} (hf : h.find? id = none) (hid : id ≠ d.id) :
    h'.find? id = none := by
  rw [find?_add added, if_neg hid, hf]

theorem superclassName_persists (node : TypeNode) :
    h'.superclassName node = h.superclassName node := by
  rw [superclassName, superclassName, implicitRoot_add added]

theorem ownMembers_persists (hn : h.node? c = some node) : h'.ownMembers c = h.ownMembers c := by
  rw [ownMembers_of_some hn, ownMembers_of_some (node?_persists added hn)]

theorem unless_resolve (c : Handle) : Unless (·.Awaits d.id k) (h.resolve c) (h'.resolve c) := by
  cases hn : h.node? c with
  | some node =>
    rw [resolve_of_some hn, resolve_of_some (node?_persists added hn)]
    exact unless_of_eq rfl
  | none =>
    rw [resolve_of_none hn]
    by_cases hc : c = k
    · exact unless_error (.inr (by rw [hc]))
    · rw [resolve_of_none ((node?_of_ne added hc).trans hn)]
      exact unless_of_eq rfl

theorem unless_superclass (c : Handle) :
    Unless (·.Awaits d.id k) (h.superclass c) (h'.superclass c) := by
  obtain ⟨hn, he⟩ | ⟨node, hn, ⟨parent, is, hs, he⟩ | ⟨notSynthetic, nameless, he⟩ |
      ⟨id, named, ⟨p, found, he⟩ | ⟨absent, he⟩⟩⟩ := superclass_cases h c <;> rw [he]
  · by_cases hc : c = k
    · exact unless_error (.inr (by rw [hc]))
    · exact unless_of_eq (superclass_of_foreign ((node?_of_ne added hc).trans hn))
  · exact unless_of_eq (superclass_of_synthetic (node?_persists added hn) hs)
  · exact unless_of_eq (superclass_of_nameless (node?_persists added hn) notSynthetic
      ((superclassName_persists added node).trans nameless))
  · have after := superclass_of_named (node?_persists added hn)
      ((superclassName_persists added node).trans named)
    rw [find?_persists added found] at after
    exact unless_of_eq after
  · have after := superclass_of_named (node?_persists added hn)
      ((superclassName_persists added node).trans named)
    by_cases hid : id = d.id
    · exact unless_error (.inl (congrArg some hid))
    · rw [find?_stays_absent added absent hid] at after
      exact unless_of_eq after

theorem unless_namedInterface (c : Handle) (id : TypeId) :
    Unless (·.Awaits d.id k) (h.namedInterface c id) (h'.namedInterface c id) := by
  rw [namedInterface_eq, namedInterface_eq]
  cases hf : h.find? id with
  | some i =>
    rw [find?_persists added hf]
    exact unless_of_eq rfl
  | none =>
    by_cases hid : id = d.id
    · exact unless_error (.inl (congrArg some hid))
    · rw [find?_stays_absent added hf hid]
      exact unless_of_eq rfl

theorem unless_interfaces (c : Handle) :
    Unless (·.Awaits d.id k) (h.interfaces c) (h'.interfaces c) := by
  refine (unless_resolve added c).bind fun node _ => ?_
  refine Unless.bind ?_ fun is _ => unless_of_eq rfl
  cases node.ancestry with
  | source superclass names => exact unless_mapM fun id _ => unless_namedInterface added c id
  | binary superclass names => exact unless_mapM fun id _ => unless_namedInterface added c id
  | synthetic superclass handles => exact unless_of_eq rfl

/-! ### Ascents -/

/-- **An ascent takes the same course** as far as it went, and ends there in the same way unless its
failure waited for the new type. -/
theorem Climb.grow (hc : h.Climb met c types ending) :
    ∃ more ending', h'.Climb met c (types ++ more) ending' ∧
      ((∀ e, ending = some e → ¬ e.Awaits d.id k) → more = [] ∧ ending' = ending) := by
  induction hc with
  | again old => exact ⟨[], _, .again old, fun _ => ⟨rfl, rfl⟩⟩
  | @foreign met c new e =>
    by_cases awaits : (ResolveError.unknownType c).Awaits d.id k
    · obtain ⟨types, ending, hc⟩ := exists_climb h' met c
      exact ⟨types, ending, hc, fun no => absurd awaits (no _ rfl)⟩
    · have e' := (unless_superclass added c).of_error e awaits
      exact ⟨[], _, .foreign new e', fun _ => ⟨rfl, rfl⟩⟩
  | @broken met c id new e =>
    by_cases awaits : (ResolveError.missingSuperclass c id).Awaits d.id k
    · obtain ⟨types, ending, hc⟩ := exists_climb h' met c
      obtain ⟨node, hn⟩ := (Climb.broken new e).exists_node? c List.mem_cons_self
      obtain ⟨more, rfl⟩ := hc.starts new (node?_persists added hn)
      exact ⟨more, ending, hc, fun no => absurd awaits (no _ rfl)⟩
    · have e' := (unless_superclass added c).of_error e awaits
      exact ⟨[], _, .broken new e', fun _ => ⟨rfl, rfl⟩⟩
  | @root met c new e =>
    exact ⟨[], none, .root new ((unless_superclass added c).of_ok e), fun _ => ⟨rfl, rfl⟩⟩
  | @up met c p types ending new e rest ih =>
    -- an edge that was there before is there again
    obtain ⟨more, ending', rest', same⟩ := ih
    exact ⟨more, ending', .up new ((unless_superclass added c).of_ok e) rest', same⟩

theorem unless_chain (c : Handle) : Unless (·.Awaits d.id k) (h.chain c) (h'.chain c) := by
  obtain ⟨types, ending, hc⟩ := exists_climb h [] c
  obtain ⟨more, ending', hc', same⟩ := hc.grow added
  rw [chain_eq hc, chain_eq hc']
  intro fails
  obtain ⟨rfl, rfl⟩ := same fun e he => fails e (by rw [he]; rfl)
  rw [List.append_nil]

/-- A search finds what it found, if the types say the same about what is searched for. -/
theorem unless_search {α : Type} {probe probe' : Handle → Option α}
    (agree : ∀ t node, h.node? t = some node → probe' t = probe t) (c : Handle) :
    Unless (·.Awaits d.id k) ((Ascent.start c).search h probe)
      ((Ascent.start c).search h' probe') := by
  obtain ⟨types, ending, hc⟩ := exists_climb h [] c
  obtain ⟨more, ending', hc', same⟩ := hc.grow added
  have sameProbe : types.findSome? probe' = types.findSome? probe := by
    rw [← List.head?_filterMap, ← List.head?_filterMap]
    refine congrArg List.head? (List.filterMap_congr fun t ht => ?_)
    obtain ⟨node, hn⟩ := hc.exists_node? t ht
    exact agree t node hn
  rw [Ascent.start, hc.search_eq, hc'.search_eq, List.findSome?_append, sameProbe]
  cases types.findSome? probe with
  | some a => exact unless_of_eq rfl
  | none =>
    intro fails
    obtain ⟨rfl, rfl⟩ := same fun e he => fails e (by rw [he]; rfl)
    rfl

/-! ### Interfaces -/

theorem unless_chainInterfaces (c : Handle) :
    Unless (·.Awaits d.id k) (h.chainInterfaces c) (h'.chainInterfaces c) := by
  refine (unless_chain added c).bind fun types _ => ?_
  exact (unless_mapM fun t _ => unless_interfaces added t).bind fun declared _ => unless_of_eq rfl

theorem unless_saturate (w : Worklist) :
    Unless (·.Awaits d.id k) (w.saturate h) (w.saturate h') := by
  induction w using Worklist.saturate.induct (h := h) with
  | case1 w hw =>
    rw [Worklist.saturate_of_nil hw, Worklist.saturate_of_nil hw]
    exact unless_of_eq rfl
  | case2 w t rest hw e hi =>
    rw [Worklist.saturate_of_error hw hi]
    by_cases awaits : e.Awaits d.id k
    · exact unless_error awaits
    · have hi' := (unless_interfaces added t).of_error hi awaits
      exact unless_of_eq (Worklist.saturate_of_error hw hi')
  | case3 w t rest hw is hi ih =>
    have hi' := (unless_interfaces added t).of_ok hi
    rw [Worklist.saturate_of_ok hw hi, Worklist.saturate_of_ok hw hi']
    exact ih

theorem unless_interfaceClosure (c : Handle) :
    Unless (·.Awaits d.id k) (h.interfaceClosure c) (h'.interfaceClosure c) :=
  (unless_chainInterfaces added c).bind fun seed _ => unless_saturate added (.ofSeed seed)

/-! ### Members -/

/-- What the types of a chain declare stays the same. -/
theorem unless_along {β : Type} (part : Members → List β) (c : Handle) :
    Unless (·.Awaits d.id k) ((h.chain c).map (·.flatMap fun s => part (h.ownMembers s)))
      ((h'.chain c).map (·.flatMap fun s => part (h'.ownMembers s))) := by
  refine (unless_chain added c).map fun types hc => List.flatMap_congr fun t ht => ?_
  obtain ⟨node, hn⟩ := (climb_of_chain_eq_ok hc).exists_node? t ht
  rw [ownMembers_persists added hn]

/-! ### Questions -/

/-- **A type that is added leaves an answer as it is**, unless the answer is a failure that waits for
the type. -/
theorem unless_answer (q : Query Symbol) :
    Unless (·.Awaits d.id k) (h.answer q) (h'.answer q) := by
  cases q with
  | superclass c => exact (unless_superclass added c).map fun _ _ => rfl
  | interfaces c => exact (unless_interfaces added c).map fun _ _ => rfl
  | chain c => exact (unless_chain added c).map fun _ _ => rfl
  | chainInterfaces c => exact (unless_chainInterfaces added c).map fun _ _ => rfl
  | interfaceClosure c => exact (unless_interfaceClosure added c).map fun _ _ => rfl
  | inherits c a =>
    refine Unless.map (Unless.map ?_ fun _ _ => rfl) fun _ _ => rfl
    exact unless_search added (fun _ _ _ => rfl) c
  | implements c i =>
    exact ((unless_interfaceClosure added c).map fun _ _ => rfl).map fun _ _ => rfl
  | field c name =>
    refine (unless_search added (fun t node hn => ?_) c).map fun _ _ => rfl
    rw [ownMembers_persists added hn]
  | method c name descriptor =>
    refine (unless_search added (fun t node hn => ?_) c).map fun _ _ => rfl
    rw [ownMembers_persists added hn]
  | ownInstanceFields c | ownStaticFields c | ownMethods c =>
    exact ((unless_resolve added c).map fun _ _ => rfl).map fun _ _ => rfl
  | chainInstanceFields c => exact (unless_along added Members.instanceFields c).map fun _ _ => rfl
  | chainStaticFields c => exact (unless_along added Members.staticFields c).map fun _ _ => rfl
  | chainFields c =>
    refine Unless.map ?_ fun _ _ => rfl
    refine (unless_along added Members.instanceFields c).bind fun instanceFields _ => ?_
    exact (unless_along added Members.staticFields c).bind fun staticFields _ => unless_of_eq rfl
  | chainMethods c => exact (unless_along added Members.methods c).map fun _ _ => rfl
  | effectiveMethods c =>
    exact ((unless_along added Members.methods c).map fun _ _ => rfl).map fun _ _ => rfl

end Added

end Hierarchy

/-! ### The answers of a scope -/

namespace Scope

variable {root : Option TypeId} {s : Scope} {d : Declaration} {k : Handle}

/-- **What one more type changes**, whatever the memo remembered before.  Answers stay, and so do failures that do
not wait for the type; a failure over the type or its handle is afterwards not about these any more. -/
theorem ask_after_add (hs : s.Reachable root) (added : (s.add d).1 = .ok k) (q : Query Symbol) :
    (∀ a, (s.ask q).1 = .ok a → ((s.add d).2.ask q).1 = .ok a) ∧
      (∀ e, (s.ask q).1 = .error e → ¬ e.Awaits d.id k → ((s.add d).2.ask q).1 = .error e) ∧
      (∀ e, (s.ask q).1 = .error e → e.missing? = some d.id →
        ∀ e', ((s.add d).2.ask q).1 = .error e' → e'.missing? ≠ some d.id) ∧
      ((s.ask q).1 = .error (.unknownType k) →
        ∀ u, ((s.add d).2.ask q).1 ≠ .error (.unknownType u)) := by
  have grown : s.hierarchy.add d = .ok (k, (s.add d).2.hierarchy) := hierarchy_add_of_ok added
  have hs' : (s.add d).2.Reachable root := hs.perform (.add d)
  have hw := hs.hierarchy.wellFormed
  have hw' := hs'.hierarchy.wellFormed
  have same := Hierarchy.unless_answer grown q
  rw [hs.ask_eq, hs'.ask_eq]
  refine ⟨fun a before => same.of_ok before, fun e before => same.of_error before, ?_, ?_⟩
  · intro e _ _ e' after missing
    -- what a failure reports as missing is missing, and the new type is not
    have absent := (Hierarchy.failsIn_answer _ q e' after).find?_eq_none missing
    rw [Hierarchy.find?_add grown, if_pos rfl] at absent
    cases absent
  · intro before
    -- the question was about the new handle, which is good now
    apply hw'.answer_ne_unknownType
    rw [← hw.eq_subject_of_unknownType before, Hierarchy.index_of_add grown,
      Hierarchy.size_add grown]
    exact Nat.lt_succ_self _

/-- A type whose superclass is not there yet. -/
def orphaned : Scope :=
  loaded none [.new ⟨⟨.empty⟩, ⟨1⟩⟩ (.binary (some ⟨⟨.empty⟩, ⟨2⟩⟩) [])]

/-- The missing superclass. -/
def parent : Declaration := .new ⟨⟨.empty⟩, ⟨2⟩⟩ (.binary none [])

/-- The superclass arrives.  Before, a chain was broken over it and its handle was foreign; both failures
end, and neither an answer nor a failure over another handle changes. -/
theorem ask_orphaned_after_parent :
    orphaned.Reachable none ∧ (orphaned.add parent).1 = .ok ⟨1⟩ ∧
      (orphaned.ask (.inherits ⟨0⟩ ⟨0⟩)).1 = .ok (.truth true) ∧
      (orphaned.ask (.chain ⟨2⟩)).1 = .error (.unknownType ⟨2⟩) ∧
      (orphaned.ask (.chain ⟨0⟩)).1 = .error (.missingSuperclass ⟨0⟩ parent.id) ∧
      (orphaned.ask (.chain ⟨1⟩)).1 = .error (.unknownType ⟨1⟩) ∧
      ((orphaned.add parent).2.ask (.inherits ⟨0⟩ ⟨0⟩)).1 = .ok (.truth true) ∧
      ((orphaned.add parent).2.ask (.chain ⟨2⟩)).1 = .error (.unknownType ⟨2⟩) ∧
      (∀ e, ((orphaned.add parent).2.ask (.chain ⟨0⟩)).1 = .error e →
        e.missing? ≠ some parent.id) ∧
      ∀ u, ((orphaned.add parent).2.ask (.chain ⟨1⟩)).1 ≠ .error (.unknownType u) := by
  have reachable : orphaned.Reachable none := reachable_loaded none _
  have added : (orphaned.add parent).1 = .ok ⟨1⟩ := by decide +kernel
  have answered : (orphaned.ask (.inherits ⟨0⟩ ⟨0⟩)).1 = .ok (.truth true) := by decide +kernel
  have elsewhere : (orphaned.ask (.chain ⟨2⟩)).1 = .error (.unknownType ⟨2⟩) := by decide +kernel
  have broken : (orphaned.ask (.chain ⟨0⟩)).1 = .error (.missingSuperclass ⟨0⟩ parent.id) := by
    decide +kernel
  have foreign : (orphaned.ask (.chain ⟨1⟩)).1 = .error (.unknownType ⟨1⟩) := by decide +kernel
  refine ⟨reachable, added, answered, elsewhere, broken, foreign, ?_, ?_, ?_, ?_⟩
  · exact (ask_after_add reachable added _).1 _ answered
  · have unconcerned : ¬ (ResolveError.unknownType ⟨2⟩).Awaits parent.id ⟨1⟩ := by
      rintro (missing | same)
      · cases missing
      · cases same
    exact (ask_after_add reachable added _).2.1 _ elsewhere unconcerned
  · exact (ask_after_add reachable added _).2.2.1 _ broken rfl
  · exact (ask_after_add reachable added _).2.2.2 foreign

end Scope

end Lineage
