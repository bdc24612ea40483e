import Lineage.Hierarchy.Edge
import Lineage.Proofs.Failure

/-!
# The edges of a hierarchy

What `superclass` and `interfaces` can say about a type, case by case.  A foreign handle has no edges;
a type made up by an analysis has the ones it records; all others are looked up by name.

Main facts: `superclass_cases`, and of what it says `of_superclass_some`, `of_superclass_none` and
`of_superclass_error`; likewise `of_mem_interfaces` and `of_interfaces_error`.  Later proofs use these
in place of the definitions.
-/

namespace Lineage

/-- The identities under which the interfaces of a type are looked up. -/
def Ancestry.interfaceNames : Ancestry → List TypeId
  | .source _ interfaces | .binary _ interfaces => interfaces
  | .synthetic _ _ => []

theorem Ancestry.mem_interfaceNames_iff {a : Ancestry} {id : TypeId} : id ∈ a.interfaceNames ↔
    ∃ superclass names, (a = .source superclass names ∨ a = .binary superclass names) ∧
      id ∈ names := by
  constructor
  · intro hid
    cases a with
    | source superclass names => exact ⟨superclass, names, .inl rfl, hid⟩
    | binary superclass names => exact ⟨superclass, names, .inr rfl, hid⟩
    | synthetic superclass handles => exact absurd hid List.not_mem_nil
  · rintro ⟨superclass, names, rfl | rfl, hid⟩ <;> exact hid

namespace Hierarchy

variable {h : Hierarchy} {c : Handle} {node : TypeNode}

section Resolve

theorem resolve_of_some (e : h.node? c = some node) : h.resolve c = .ok node := by
  rw [resolve, e]

theorem resolve_of_none (e : h.node? c = none) : h.resolve c = .error (.unknownType c) := by
  rw [resolve, e]

theorem node?_of_resolve_ok (e : h.resolve c = .ok node) : h.node? c = some node := by
  cases hn : h.node? c with
  | none => cases e.symm.trans (resolve_of_none hn)
  | some node' =>
    cases e.symm.trans (resolve_of_some hn)
    rfl

end Resolve

section Superclass

/-- The superclass is looked up under the name that the type gives, or under that of the implicit root
if the type comes from a source text, gives none, and is not that root. -/
theorem superclassName_eq_some_iff {id : TypeId} : h.superclassName node = some id ↔
    (∃ is, node.ancestry = .source (some id) is) ∨ (∃ is, node.ancestry = .binary (some id) is) ∨
      ∃ is, node.ancestry = .source none is ∧ h.implicitRoot = some id ∧ id ≠ node.id := by
  unfold superclassName
  split <;> rename_i e <;> simp [e, Option.filter_eq_some_iff]

theorem superclass_of_foreign (e : h.node? c = none) :
    h.superclass c = .error (.unknownType c) := by
  rw [superclass, resolve_of_none e]
  rfl

theorem superclass_of_synthetic {parent : Option Handle} {interfaces : List Handle}
    (e : h.node? c = some node) (hn : node.ancestry = .synthetic parent interfaces) :
    h.superclass c = .ok parent := by
  simp only [superclass, resolve_of_some e, hn, bind, Except.bind]
  rfl

/-- A type that is not made up by an analysis and has no superclass to look up is a root. -/
theorem superclass_of_nameless (e : h.node? c = some node)
    (hn : ∀ parent interfaces, node.ancestry ≠ .synthetic parent interfaces)
    (nameless : h.superclassName node = none) : h.superclass c = .ok none := by
  simp only [superclass, resolve_of_some e, nameless, bind, Except.bind]
  rfl

/-- The superclass that is looked up by name is there or missing. -/
theorem superclass_of_named {id : TypeId} (e : h.node? c = some node)
    (hn : h.superclassName node = some id) :
    h.superclass c = (h.find? id).elim (.error (.missingSuperclass c id)) fun p => .ok (some p) := by
  simp only [superclass, resolve_of_some e, hn, bind, Except.bind]
  split
  · rename_i parent interfaces hs
    simp [superclassName, hs] at hn
  · cases h.find? id <;> rfl

/-- The superclass of a type that is not made up by an analysis is looked up, if there is a name for
it. -/
theorem superclass_of_looked_up (e : h.node? c = some node)
    (hn : ∀ parent interfaces, node.ancestry ≠ .synthetic parent interfaces) :
    h.superclass c = (h.superclassName node).elim (.ok none) fun id =>
      (h.find? id).elim (.error (.missingSuperclass c id)) fun p => .ok (some p) := by
  cases named : h.superclassName node with
  | none => exact superclass_of_nameless e hn named
  | some id => exact superclass_of_named e named

/-- All that `superclass` can say about a type. -/
theorem superclass_cases (h : Hierarchy) (c : Handle) :
    (h.node? c = none ∧ h.superclass c = .error (.unknownType c)) ∨
    ∃ node, h.node? c = some node ∧
      ((∃ parent interfaces, node.ancestry = .synthetic parent interfaces ∧
          h.superclass c = .ok parent) ∨
        ((∀ parent interfaces, node.ancestry ≠ .synthetic parent interfaces) ∧
          h.superclassName node = none ∧ h.superclass c = .ok none) ∨
        ∃ id, h.superclassName node = some id ∧
          ((∃ p, h.find? id = some p ∧ h.superclass c = .ok (some p)) ∨
            h.find? id = none ∧ h.superclass c = .error (.missingSuperclass c id))) := by
  cases e : h.node? c with
  | none => exact .inl ⟨rfl, superclass_of_foreign e⟩
  | some node =>
    refine .inr ⟨node, rfl, ?_⟩
    by_cases hs : ∃ parent interfaces, node.ancestry = .synthetic parent interfaces
    · obtain ⟨parent, interfaces, hs⟩ := hs
      exact .inl ⟨parent, interfaces, hs, superclass_of_synthetic e hs⟩
    · have hn : ∀ parent interfaces, node.ancestry ≠ .synthetic parent interfaces :=
        fun p is he => hs ⟨p, is, he⟩
      cases named : h.superclassName node with
      | none => exact .inr (.inl ⟨hn, rfl, superclass_of_nameless e hn named⟩)
      | some id =>
        refine .inr (.inr ⟨id, rfl, ?_⟩)
        have := superclass_of_named e named
        cases found : h.find? id with
        | none =>
          rw [found] at this
          exact .inr ⟨rfl, this⟩
        | some p =>
          rw [found] at this
          exact .inl ⟨p, rfl, this⟩

/-- A superclass is recorded, or found under the name that it is looked up by. -/
theorem of_superclass_some {p : Handle} (e : h.superclass c = .ok (some p)) :
    ∃ node, h.node? c = some node ∧
      ((∃ interfaces, node.ancestry = .synthetic (some p) interfaces) ∨
        ∃ id, h.superclassName node = some id ∧ h.find? id = some p) := by
  obtain ⟨_, he⟩ | ⟨node, hnode, ⟨parent, is, hs, he⟩ | ⟨_, _, he⟩ |
      ⟨id, hid, ⟨q, hq, he⟩ | ⟨_, he⟩⟩⟩ := superclass_cases h c <;> rw [he] at e <;> cases e
  · exact ⟨node, hnode, .inl ⟨is, hs⟩⟩
  · exact ⟨node, hnode, .inr ⟨id, hid, hq⟩⟩

/-- A type without a superclass is a source type that is the implicit root, if there is one at all, or it is no
source type and gives none. -/
theorem of_superclass_none (e : h.superclass c = .ok none) :
    ∃ node, h.node? c = some node ∧
      ((∃ is, node.ancestry = .source none is ∧ ∀ id, h.implicitRoot = some id → id = node.id) ∨
        (∃ is, node.ancestry = .binary none is) ∨ ∃ is, node.ancestry = .synthetic none is) := by
  obtain ⟨_, he⟩ | ⟨node, hnode, ⟨parent, is, hs, he⟩ | ⟨made, nameless, _⟩ |
      ⟨_, _, ⟨_, _, he⟩ | ⟨_, he⟩⟩⟩ := superclass_cases h c
  · cases he.symm.trans e
  · cases he.symm.trans e
    exact ⟨node, hnode, .inr (.inr ⟨is, hs⟩)⟩
  · refine ⟨node, hnode, ?_⟩
    rcases ha : node.ancestry with ⟨_ | id, is⟩ | ⟨_ | id, is⟩ | ⟨parent, is⟩
    · refine .inl ⟨is, rfl, ?_⟩
      simpa [superclassName, ha, Option.filter_eq_none_iff] using nameless
    · simp [superclassName, ha] at nameless
    · exact .inr (.inl ⟨is, rfl⟩)
    · simp [superclassName, ha] at nameless
    · exact absurd ha (made parent is)
  · cases he.symm.trans e
  · cases he.symm.trans e

/-- The two ways in which a superclass cannot be determined. -/
theorem of_superclass_error {err : ResolveError} (e : h.superclass c = .error err) :
    (h.node? c = none ∧ err = .unknownType c) ∨
      ∃ node id, h.node? c = some node ∧ h.superclassName node = some id ∧ h.find? id = none ∧
        err = .missingSuperclass c id := by
  obtain ⟨hnode, he⟩ | ⟨node, hnode, ⟨_, _, _, he⟩ | ⟨_, _, he⟩ |
      ⟨id, hid, ⟨_, _, he⟩ | ⟨hid', he⟩⟩⟩ := superclass_cases h c <;> rw [he] at e <;> cases e
  · exact .inl ⟨hnode, rfl⟩
  · exact .inr ⟨node, id, hnode, hid, hid', rfl⟩

/-- Only a type of the hierarchy has its superclass determined. -/
theorem node?_of_superclass_ok {parent : Option Handle} (e : h.superclass c = .ok parent) :
    ∃ node, h.node? c = some node := by
  cases hn : h.node? c with
  | none =>
    rw [superclass_of_foreign hn] at e
    cases e
  | some node => exact ⟨node, rfl⟩

end Superclass

section Interfaces

theorem namedInterface_eq (h : Hierarchy) (c : Handle) (id : TypeId) :
    h.namedInterface c id = (h.find? id).elim (.error (.missingInterface c id)) .ok := by
  rw [namedInterface]
  cases h.find? id <;> rfl

theorem interfaces_of_foreign (e : h.node? c = none) :
    h.interfaces c = .error (.unknownType c) := by
  rw [interfaces, resolve_of_none e]
  rfl

/-- Only a type of the hierarchy has its interfaces determined. -/
theorem node?_of_interfaces_ok {is : List Handle} (e : h.interfaces c = .ok is) :
    ∃ node, h.node? c = some node := by
  cases hn : h.node? c with
  | none =>
    rw [interfaces_of_foreign hn] at e
    cases e
  | some node => exact ⟨node, rfl⟩

theorem interfaces_of_some (e : h.node? c = some node) :
    h.interfaces c = (h.namedInterfaces c node.ancestry).map List.eraseDups := by
  rw [interfaces, resolve_of_some e]
  rfl

/-- An interface is recorded, or found under a name that the type mentions. -/
theorem of_mem_interfaces {is : List Handle} {i : Handle} (e : h.interfaces c = .ok is)
    (hi : i ∈ is) :
    ∃ node, h.node? c = some node ∧
      (i ∈ node.ancestry.handles ∨ ∃ id ∈ node.ancestry.interfaceNames, h.find? id = some i) := by
  cases hn : h.node? c with
  | none =>
    rw [interfaces_of_foreign hn] at e
    cases e
  | some node =>
    refine ⟨node, rfl, ?_⟩
    rw [interfaces_of_some hn] at e
    obtain ⟨all, hall, rfl⟩ := map_eq_ok_iff.mp e
    rw [List.mem_eraseDups] at hi
    have named {names : List TypeId} (hm : names.mapM (h.namedInterface c) = .ok all) :
        ∃ id ∈ names, h.find? id = some i := by
      obtain ⟨id, hid, found⟩ := exists_of_mem_mapM hm hi
      rw [namedInterface_eq] at found
      cases hf : h.find? id with
      | none =>
        rw [hf] at found
        cases found
      | some j =>
        rw [hf] at found
        cases found
        exact ⟨id, hid, hf⟩
    cases ha : node.ancestry with
    | source superclass names =>
      rw [ha] at hall
      exact .inr (named hall)
    | binary superclass names =>
      rw [ha] at hall
      exact .inr (named hall)
    | synthetic superclass handles =>
      rw [ha] at hall
      cases hall
      exact .inl (List.mem_append_right _ hi)

/-- The two ways in which the interfaces of a type cannot be determined. -/
theorem of_interfaces_error {err : ResolveError} (e : h.interfaces c = .error err) :
    (h.node? c = none ∧ err = .unknownType c) ∨
      ∃ node id, h.node? c = some node ∧ id ∈ node.ancestry.interfaceNames ∧ h.find? id = none ∧
        err = .missingInterface c id := by
  cases hn : h.node? c with
  | none =>
    rw [interfaces_of_foreign hn] at e
    cases e
    exact .inl ⟨rfl, rfl⟩
  | some node =>
    rw [interfaces_of_some hn, map_eq_error_iff] at e
    have named {names : List TypeId} : FailsIn
        (fun err => ∃ id ∈ names, h.find? id = none ∧ err = .missingInterface c id)
        (names.mapM (h.namedInterface c)) := by
      refine failsIn_mapM fun id hid err he => ?_
      rw [namedInterface_eq] at he
      cases hf : h.find? id with
      | none =>
        rw [hf] at he
        cases he
        exact ⟨id, hid, hf, rfl⟩
      | some i =>
        rw [hf] at he
        cases he
    refine .inr ⟨node, ?_⟩
    cases ha : node.ancestry with
    | source superclass names =>
      rw [ha] at e
      obtain ⟨id, hid, absent, rfl⟩ := named err e
      exact ⟨id, rfl, hid, absent, rfl⟩
    | binary superclass names =>
      rw [ha] at e
      obtain ⟨id, hid, absent, rfl⟩ := named err e
      exact ⟨id, rfl, hid, absent, rfl⟩
    | synthetic superclass handles =>
      rw [ha] at e
      cases e

end Interfaces

end Hierarchy

end Lineage
