import Lineage.Proofs.Level
import Lineage.Proofs.Union

/-!
# Foreign handles

A handle that a hierarchy did not give out is foreign to it.  Every question about a foreign handle fails
over just that handle, and no other question fails over a foreign handle or has one in its answer: each
edge leads to a type of the hierarchy, and each member names a type of the hierarchy as its owner.  A
foreign handle as the second type of a question does no harm.

Main facts: `answer_of_foreign`, `WellFormed.lt_size_of_mentioned`, `inherits_of_foreign` and
`WellFormed.implements_of_foreign`; at the end all of it for the answers and walks of a scope.
-/

namespace Lineage

/-- The handles in an answer: types, and the types that declare the members. -/
def Answer.mentioned : Answer → List Handle
  | handle c => c.toList
  | handles cs => cs
  | truth _ => []
  | field f => f.toList.map (·.declaring)
  | fields fs => fs.map (·.declaring)
  | method m => m.toList.map (·.declaring)
  | methods ms => ms.map (·.declaring)

namespace Hierarchy

variable {h : Hierarchy} {c t i a : Handle} {q : Query Symbol} {types : List Handle}
  {f : Field} {m : Method}

/-! ### Questions about a foreign handle -/

section Foreign

variable (hn : h.node? c = none)
include hn

theorem climb_of_foreign : h.Climb [] c [] (some (.unknownType c)) :=
  .foreign List.not_mem_nil (superclass_of_foreign hn)

theorem chain_of_foreign : h.chain c = .error (.unknownType c) :=
  chain_eq (climb_of_foreign hn)

theorem search_of_foreign {α : Type} (probe : Handle → Option α) :
    (Ascent.start c).search h probe = .error (.unknownType c) :=
  (climb_of_foreign hn).search_eq probe

theorem chainInterfaces_of_foreign : h.chainInterfaces c = .error (.unknownType c) := by
  rw [chainInterfaces, chain_of_foreign hn]
  rfl

theorem interfaceClosure_of_foreign : h.interfaceClosure c = .error (.unknownType c) := by
  rw [interfaceClosure, chainInterfaces_of_foreign hn]
  rfl

/-- A walk from a foreign handle gives the failure and nothing else. -/
theorem take_of_foreign (n : Nat) : (Ascent.start c).take h (n + 1) =
    some (.error (.unknownType c)) :: List.replicate n none := by
  have := (climb_of_foreign hn).take_eq n
  rwa [List.length_nil, Nat.zero_add, Nat.add_comm 1 n] at this

end Foreign

/-- **A question about a foreign handle fails over that handle**, whatever it asks. -/
theorem answer_of_foreign (hn : h.node? q.subject = none) :
    h.answer q = .error (.unknownType q.subject) := by
  cases q with
  | superclass c => exact congrArg (Except.map _) (superclass_of_foreign hn)
  | interfaces c => exact congrArg (Except.map _) (interfaces_of_foreign hn)
  | chain c => exact congrArg (Except.map _) (chain_of_foreign hn)
  | chainInterfaces c => exact congrArg (Except.map _) (chainInterfaces_of_foreign hn)
  | interfaceClosure c => exact congrArg (Except.map _) (interfaceClosure_of_foreign hn)
  | inherits c a => exact congrArg (Except.map _ <| Except.map _ ·) (search_of_foreign hn _)
  | implements c i =>
    exact congrArg (Except.map _ <| Except.map _ ·) (interfaceClosure_of_foreign hn)
  | field c name => exact congrArg (Except.map _) (search_of_foreign hn _)
  | method c name descriptor => exact congrArg (Except.map _) (search_of_foreign hn _)
  | ownInstanceFields c | ownStaticFields c | ownMethods c =>
    exact congrArg (Except.map _ <| Except.map _ ·) (resolve_of_none hn)
  | chainInstanceFields c | chainStaticFields c | chainMethods c =>
    exact congrArg (Except.map _ <| Except.map _ ·) (chain_of_foreign hn)
  | chainFields c => exact congrArg (Except.map _) (chainFields_of_error (chain_of_foreign hn))
  | effectiveMethods c => exact congrArg (Except.map _) (effectiveMethods_of_error (chain_of_foreign hn))

/-! ### Handles in answers -/

/-- What a search finds is found at some type. -/
theorem exists_probe_of_search {α : Type} {probe : Handle → Option α} {a : α}
    (e : (Ascent.start c).search h probe = .ok (some a)) : ∃ t, probe t = some a := by
  obtain ⟨types, ending, hc⟩ := exists_climb h [] c
  obtain ⟨t, -, found⟩ := List.exists_of_findSome?_eq_some (hc.search_eq_ok_some_iff.mp e)
  exact ⟨t, found⟩

namespace WellFormed

variable (hw : h.WellFormed)
include hw

theorem lt_size_of_extends (step : h.Extends t i) : i.index < h.size := by
  obtain ⟨is, e, mem⟩ := step
  exact hw.interface_lt e mem

/-- A field that is listed for some types names a type of the hierarchy. -/
theorem lt_size_of_mem_fieldsAlong
    (hf : f ∈ h.instanceFieldsAlong types ++ h.staticFieldsAlong types) :
    f.declaring.index < h.size := by
  rw [(h.perm_fieldsAlong types).mem_iff] at hf
  obtain ⟨t, -, hf⟩ := List.mem_flatMap.mp hf
  obtain ⟨same, known⟩ := hw.declaring_of_mem_fields hf
  exact same ▸ known

/-- So does a method. -/
theorem lt_size_of_mem_methodsAlong (hm : m ∈ h.methodsAlong types) :
    m.declaring.index < h.size := by
  obtain ⟨t, -, hm⟩ := List.mem_flatMap.mp hm
  obtain ⟨same, known⟩ := hw.declaring_of_mem_methods hm
  exact same ▸ known

theorem lt_size_of_findField {name : Symbol} (e : h.findField c name = .ok (some f)) :
    f.declaring.index < h.size := by
  obtain ⟨t, found⟩ := exists_probe_of_search e
  obtain ⟨same, known⟩ := hw.declaring_of_mem_fields (Roster.find?_eq_some_iff_mem.mp found).1
  exact same ▸ known

theorem lt_size_of_findMethod {selector : Selector} (e : h.findMethod c selector = .ok (some m)) :
    m.declaring.index < h.size := by
  obtain ⟨t, found⟩ := exists_probe_of_search e
  obtain ⟨same, known⟩ := hw.declaring_of_mem_methods (Roster.find?_eq_some_iff_mem.mp found).1
  exact same ▸ known

/-- **No answer has a foreign handle in it.** -/
theorem lt_size_of_mentioned {answer : Answer} (answered : h.answer q = .ok answer)
    (ht : t ∈ answer.mentioned) : t.index < h.size := by
  cases q with
  | superclass c =>
    obtain ⟨parent, e, rfl⟩ := map_eq_ok_iff.mp answered
    obtain rfl := Option.mem_toList.mp ht
    exact hw.superclass_lt e
  | interfaces c =>
    obtain ⟨is, e, rfl⟩ := map_eq_ok_iff.mp answered
    exact hw.interface_lt e ht
  | chain c =>
    obtain ⟨types, e, rfl⟩ := map_eq_ok_iff.mp answered
    obtain ⟨node, hnode⟩ := (climb_of_chain_eq_ok e).exists_node? t ht
    exact lt_size_of_node? hnode
  | chainInterfaces c =>
    obtain ⟨is, e, rfl⟩ := map_eq_ok_iff.mp answered
    obtain ⟨u, -, step⟩ := exists_extends_of_chainInterfaces e ht
    exact hw.lt_size_of_extends step
  | interfaceClosure c =>
    obtain ⟨is, e, rfl⟩ := map_eq_ok_iff.mp answered
    obtain ⟨u, -, step⟩ := exists_extends_of_interfaceClosure e ht
    exact hw.lt_size_of_extends step
  | inherits c a | implements c i =>
    obtain ⟨value, -, rfl⟩ := map_eq_ok_iff.mp answered
    exact absurd ht List.not_mem_nil
  | field c name =>
    obtain ⟨found, e, rfl⟩ := map_eq_ok_iff.mp answered
    obtain ⟨f, hf, rfl⟩ := List.mem_map.mp ht
    obtain rfl := Option.mem_toList.mp hf
    exact hw.lt_size_of_findField e
  | method c name descriptor =>
    obtain ⟨found, e, rfl⟩ := map_eq_ok_iff.mp answered
    obtain ⟨m, hm, rfl⟩ := List.mem_map.mp ht
    obtain rfl := Option.mem_toList.mp hm
    exact hw.lt_size_of_findMethod e
  | ownInstanceFields c | ownStaticFields c =>
    obtain ⟨fs, own, rfl⟩ := map_eq_ok_iff.mp answered
    obtain ⟨node, e, rfl⟩ := map_eq_ok_iff.mp own
    obtain ⟨f, hf, rfl⟩ := List.mem_map.mp ht
    have there := node?_of_resolve_ok e
    rw [hw.declaring_field there (List.mem_of_mem_filter hf)]
    exact lt_size_of_node? there
  | ownMethods c =>
    obtain ⟨ms, own, rfl⟩ := map_eq_ok_iff.mp answered
    obtain ⟨node, e, rfl⟩ := map_eq_ok_iff.mp own
    obtain ⟨m, hm, rfl⟩ := List.mem_map.mp ht
    have there := node?_of_resolve_ok e
    rw [hw.declaring_method there hm]
    exact lt_size_of_node? there
  | chainInstanceFields c =>
    obtain ⟨fs, union, rfl⟩ := map_eq_ok_iff.mp answered
    obtain ⟨types, -, rfl⟩ := map_eq_ok_iff.mp union
    obtain ⟨f, hf, rfl⟩ := List.mem_map.mp ht
    exact hw.lt_size_of_mem_fieldsAlong (List.mem_append_left _ hf)
  | chainStaticFields c =>
    obtain ⟨fs, union, rfl⟩ := map_eq_ok_iff.mp answered
    obtain ⟨types, -, rfl⟩ := map_eq_ok_iff.mp union
    obtain ⟨f, hf, rfl⟩ := List.mem_map.mp ht
    exact hw.lt_size_of_mem_fieldsAlong (List.mem_append_right _ hf)
  | chainFields c =>
    obtain ⟨all, union, rfl⟩ := map_eq_ok_iff.mp answered
    obtain ⟨fs, instances, union⟩ := bind_eq_ok_iff.mp union
    obtain ⟨gs, statics, union⟩ := bind_eq_ok_iff.mp union
    obtain ⟨types, hc, rfl⟩ := map_eq_ok_iff.mp instances
    obtain ⟨types', hc', rfl⟩ := map_eq_ok_iff.mp statics
    cases union
    cases hc.symm.trans hc'
    obtain ⟨f, hf, rfl⟩ := List.mem_map.mp ht
    exact hw.lt_size_of_mem_fieldsAlong hf
  | chainMethods c =>
    obtain ⟨ms, union, rfl⟩ := map_eq_ok_iff.mp answered
    obtain ⟨types, -, rfl⟩ := map_eq_ok_iff.mp union
    obtain ⟨m, hm, rfl⟩ := List.mem_map.mp ht
    exact hw.lt_size_of_mem_methodsAlong hm
  | effectiveMethods c =>
    obtain ⟨ms, first, rfl⟩ := map_eq_ok_iff.mp answered
    obtain ⟨all, union, rfl⟩ := map_eq_ok_iff.mp first
    obtain ⟨types, -, rfl⟩ := map_eq_ok_iff.mp union
    obtain ⟨m, hm, rfl⟩ := List.mem_map.mp ht
    exact hw.lt_size_of_mem_methodsAlong ((eraseDupsBy_sublist Method.selector _).subset hm)

end WellFormed

/-! ### A foreign handle as the second type -/

/-- A search fails as the chain fails. -/
theorem chain_of_search_error {α : Type} {probe : Handle → Option α} {e : ResolveError}
    (failed : (Ascent.start c).search h probe = .error e) : h.chain c = .error e := by
  obtain ⟨types, ending, hc⟩ := exists_climb h [] c
  rw [Ascent.start, hc.search_eq] at failed
  rw [chain_eq hc]
  cases found : types.findSome? probe with
  | some b =>
    rw [found] at failed
    cases failed
  | none =>
    rw [found] at failed
    cases ending with
    | none => cases failed
    | some e' =>
      cases failed
      rfl

/-- The search for a foreign handle goes along the whole chain and does not find it. -/
theorem inherits_of_foreign (hn : h.node? a = none) :
    h.inherits c a = (h.chain c).map fun _ => false := by
  obtain ⟨types, ending, hc⟩ := exists_climb h [] c
  have nowhere : a ∉ types := by
    intro ha
    obtain ⟨node, hnode⟩ := hc.exists_node? a ha
    cases hn.symm.trans hnode
  rw [hc.inherits_eq, if_neg nowhere, chain_eq hc]
  cases ending <;> rfl

/-- A foreign handle is not in the closure. -/
theorem WellFormed.implements_of_foreign (hw : h.WellFormed) (outside : h.size ≤ i.index) :
    h.implements c i = (h.interfaceClosure c).map fun _ => false := by
  rw [implements]
  cases e : h.interfaceClosure c with
  | error err => rfl
  | ok types =>
    have absent : i ∉ types := by
      intro mem
      obtain ⟨u, -, step⟩ := exists_extends_of_interfaceClosure e mem
      exact Nat.not_lt.mpr outside (hw.lt_size_of_extends step)
    exact congrArg Except.ok (by simpa using absent)

/-! ### Walks -/

/-- What a walk from a type of the hierarchy meets belongs to the hierarchy, and no foreign handle stops
it. -/
theorem WellFormed.of_mem_take (hw : h.WellFormed) (known : c.index < h.size) {n : Nat}
    {item : Except ResolveError Handle} (hi : some item ∈ (Ascent.start c).take h n) :
    (∃ t, item = .ok t ∧ t.index < h.size) ∨ ∃ e, item = .error e ∧ ∀ u, e ≠ .unknownType u := by
  obtain ⟨types, ending, hc⟩ := exists_climb h [] c
  obtain ⟨t, ht, same⟩ | same | same := hc.of_mem_take hi
  · cases same
    obtain ⟨node, hnode⟩ := hc.exists_node? t ht
    exact .inl ⟨t, rfl, lt_size_of_node? hnode⟩
  · cases ending with
    | none => cases same
    | some e =>
      cases same
      refine .inr ⟨e, rfl, fun u => ?_⟩
      rintro rfl
      exact hc.ne_unknownType hw known u rfl
  · cases same

end Hierarchy

namespace Scope

variable {root : Option TypeId} {s : Scope}

/-- **Foreign handles.**  A question about a foreign handle, or a walk from it, fails over that handle; none about a
type of the hierarchy fails over a foreign handle or comes out with one.  The second type of a question is
never the reason of a failure. -/
theorem Reachable.ask_foreign (hs : s.Reachable root) :
    s.hierarchy.size ≤ Handle.unassigned.index ∧
      (∀ q : Query Symbol, s.hierarchy.size ≤ q.subject.index →
        (s.ask q).1 = .error (.unknownType q.subject)) ∧
      (∀ (c : Handle) (n : Nat), s.hierarchy.size ≤ c.index →
        (Ascent.start c).take s.hierarchy (n + 1) =
          some (.error (.unknownType c)) :: List.replicate n none) ∧
      (∀ q : Query Symbol, q.subject.index < s.hierarchy.size →
        (∀ u, (s.ask q).1 ≠ .error (.unknownType u)) ∧
        ∀ a, (s.ask q).1 = .ok a → ∀ t ∈ a.mentioned, t.index < s.hierarchy.size) ∧
      (∀ (c : Handle) (n : Nat) (item : Except ResolveError Handle), c.index < s.hierarchy.size →
        some item ∈ (Ascent.start c).take s.hierarchy n →
        (∃ t, item = .ok t ∧ t.index < s.hierarchy.size) ∨
          ∃ e, item = .error e ∧ ∀ u, e ≠ .unknownType u) ∧
      (∀ c a : Handle,
        (∀ e, (s.ask (.inherits c a)).1 = .error e → (s.ask (.chain c)).1 = .error e) ∧
        (s.hierarchy.size ≤ a.index →
          (s.ask (.inherits c a)).1 = (s.ask (.chain c)).1.map fun _ => .truth false)) ∧
      ∀ c i : Handle,
        (∀ e, (s.ask (.implements c i)).1 = .error e → (s.ask (.interfaceClosure c)).1 = .error e) ∧
        (s.hierarchy.size ≤ i.index →
          (s.ask (.implements c i)).1 = (s.ask (.interfaceClosure c)).1.map fun _ => .truth false) := by
  have hw := hs.hierarchy.wellFormed
  have foreign {c : Handle} (outside : s.hierarchy.size ≤ c.index) : s.hierarchy.node? c = none :=
    Hierarchy.node?_eq_none_iff.mpr outside
  refine ⟨hw.size_le, fun q outside => ?_, fun c n outside => ?_, fun q known => ⟨fun u => ?_, ?_⟩,
    fun c n item known => ?_, fun c a => ⟨fun e failed => ?_, fun outside => ?_⟩,
    fun c i => ⟨fun e failed => ?_, fun outside => ?_⟩⟩
  · rw [hs.ask_eq]
    exact Hierarchy.answer_of_foreign (foreign outside)
  · exact Hierarchy.take_of_foreign (foreign outside) n
  · rw [hs.ask_eq]
    exact hw.answer_ne_unknownType known u
  · intro a answered t ht
    exact hw.lt_size_of_mentioned (hs.ask_eq q ▸ answered) ht
  · exact hw.of_mem_take known
  · have search := map_eq_error_iff.mp ((hs.ask_eq_error_iff rfl).mp failed)
    exact (hs.ask_eq_error_iff rfl).mpr (Hierarchy.chain_of_search_error search)
  · rw [hs.ask_eq, hs.ask_eq]
    show (s.hierarchy.inherits c a).map Answer.truth =
      ((s.hierarchy.chain c).map Answer.handles).map fun _ => .truth false
    rw [Hierarchy.inherits_of_foreign (foreign outside)]
    cases s.hierarchy.chain c <;> rfl
  · have closure := map_eq_error_iff.mp ((hs.ask_eq_error_iff rfl).mp failed)
    exact (hs.ask_eq_error_iff rfl).mpr closure
  · rw [hs.ask_eq, hs.ask_eq]
    show (s.hierarchy.implements c i).map Answer.truth =
      ((s.hierarchy.interfaceClosure c).map Answer.handles).map fun _ => .truth false
    rw [hw.implements_of_foreign outside]
    cases s.hierarchy.interfaceClosure c <;> rfl

/-- The handle that stands for no type, asked about or asked for, and the owners of some fields. -/
theorem ask_foreign_redeclaring :
    redeclaring.Reachable none ∧
      (∀ q : Query Symbol, q.subject = .unassigned →
        (redeclaring.ask q).1 = .error (.unknownType .unassigned)) ∧
      (redeclaring.ask (.inherits ⟨1⟩ .unassigned)).1 = .ok (.truth false) ∧
      (redeclaring.ask (.implements ⟨2⟩ .unassigned)).1 =
        .error (.missingSuperclass ⟨2⟩ ⟨⟨.empty⟩, ⟨4⟩⟩) ∧
      ∀ a, (redeclaring.ask (.chainFields ⟨1⟩)).1 = .ok a → ∀ t ∈ a.mentioned, t.index < 3 := by
  have reachable : redeclaring.Reachable none := reachable_loaded none _
  have three : redeclaring.hierarchy.size = 3 := by decide +kernel
  have chain : (redeclaring.ask (.chain ⟨1⟩)).1 = .ok (.handles [⟨1⟩, ⟨0⟩]) := by decide +kernel
  have closure : (redeclaring.ask (.interfaceClosure ⟨2⟩)).1 =
      .error (.missingSuperclass ⟨2⟩ ⟨⟨.empty⟩, ⟨4⟩⟩) := by
    decide +kernel
  obtain ⟨size_le, about, -, answers, -, inherits, implements⟩ := reachable.ask_foreign
  refine ⟨reachable, fun q hq => ?_, ?_, ?_, fun a answered t ht => ?_⟩
  · rw [about q (hq ▸ size_le), hq]
  · rw [(inherits ⟨1⟩ .unassigned).2 size_le, chain]
    rfl
  · rw [(implements ⟨2⟩ .unassigned).2 size_le, closure]
    rfl
  · have known : (.chainFields ⟨1⟩ : Query Symbol).subject.index < redeclaring.hierarchy.size := by
      rw [three]
      decide
    exact three ▸ (answers _ known).2 a answered t ht

end Scope

end Lineage
