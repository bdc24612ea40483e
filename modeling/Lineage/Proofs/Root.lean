import Lineage.Proofs.Lookup
import Lineage.Proofs.Permanence

/-!
# Where chains end

A chain that is complete ends at a type without a superclass.  In a hierarchy with an implicit root, no source
type is without one but that root, so what can end a chain is the root, or a compiled or made-up type that gives
no superclass.  If all types come from source texts, only the root is left, and all chains end there; there are
none as long as it is missing, and none if it gives a superclass of its own.

Main facts: `WellFormed.exists_last_of_chain` (the end of a chain), `WellFormed.exists_root_of_chain` and
`WellFormed.exists_chain_error` (the end and the lack of chains among source types); at the end the chains of a
scope.
-/

namespace Lineage

namespace Hierarchy

variable {h : Hierarchy} {c t : Handle} {types : List Handle} {node : TypeNode} {id : TypeId}

theorem mem_types_of_node? (there : h.node? c = some node) : node ∈ h.types :=
  List.mem_of_getElem? (h.getElem?_types c ▸ there)

theorem root?_eq (root : h.implicitRoot = some id) : h.root? = h.find? id := by
  simp [root?, root]

/-- A type without a superclass is a chain of its own. -/
theorem chain_of_root (top : h.superclass t = .ok none) : h.chain t = .ok [t] :=
  chain_eq (.root List.not_mem_nil top)

namespace WellFormed

variable (hw : h.WellFormed) (root : h.implicitRoot = some id)
include hw root

/-- **A chain ends at the root**, or at a type that is not from a source text and gives no superclass. -/
theorem exists_last_of_chain (e : h.chain c = .ok types) :
    ∃ t node, types.getLast? = some t ∧ h.superclass t = .ok none ∧ h.node? t = some node ∧
      ((h.root? = some t ∧ node.id = id) ∨ (∃ is, node.ancestry = .binary none is) ∨
        ∃ is, node.ancestry = .synthetic none is) := by
  obtain ⟨t, last, top⟩ := (climb_of_chain_eq_ok e).getLast?_of_root
  obtain ⟨node, there, ⟨is, -, same⟩ | named | made⟩ := of_superclass_none top
  · obtain rfl := same id root
    refine ⟨t, node, last, top, there, .inl ⟨?_, rfl⟩⟩
    rw [root?_eq root]
    exact hw.find?_eq_some_iff.mpr ⟨node, there, rfl⟩
  · exact ⟨t, node, last, top, there, .inr (.inl named)⟩
  · exact ⟨t, node, last, top, there, .inr (.inr made)⟩

section Sources

variable (sources : ∀ node ∈ h.types, ∃ superclass names, node.ancestry = .source superclass names)
include sources

/-- **Among source types there is one root for all.** -/
theorem exists_root_of_chain (e : h.chain c = .ok types) :
    ∃ r, h.root? = some r ∧ types.getLast? = some r ∧ h.superclass r = .ok none := by
  obtain ⟨t, node, last, top, there, ⟨isRoot, -⟩ | ⟨is, named⟩ | ⟨is, made⟩⟩ :=
    hw.exists_last_of_chain root e
  · exact ⟨t, isRoot, last, top⟩
  · obtain ⟨superclass, names, source⟩ := sources node (mem_types_of_node? there)
    cases source.symm.trans named
  · obtain ⟨superclass, names, source⟩ := sources node (mem_types_of_node? there)
    cases source.symm.trans made

/-- There are no chains if there is nowhere for them to end. -/
theorem exists_chain_error (endless : ∀ r, h.find? id = some r → h.superclass r ≠ .ok none) (c : Handle) :
    ∃ e, h.chain c = .error e := by
  rcases e : h.chain c with err | types
  · exact ⟨err, rfl⟩
  · obtain ⟨r, isRoot, -, top⟩ := hw.exists_root_of_chain root sources e
    rw [root?_eq root] at isRoot
    exact absurd top (endless r isRoot)

end Sources

end WellFormed

/-- A source type that gives a superclass has one, or fails for the lack of it. -/
theorem superclass_ne_none_of_source {parent : TypeId} {names : List TypeId} (there : h.node? c = some node)
    (source : node.ancestry = .source (some parent) names) : h.superclass c ≠ .ok none := by
  intro top
  obtain ⟨node', there', ⟨is, nameless, -⟩ | ⟨is, named⟩ | ⟨is, made⟩⟩ := of_superclass_none top <;>
    cases there.symm.trans there'
  · cases source.symm.trans nameless
  · cases source.symm.trans named
  · cases source.symm.trans made

end Hierarchy

namespace Scope

variable {id : TypeId} {s : Scope}

/-- **Where a chain may end**, in a scope with an implicit root: there, or at a compiled or made-up type without a
superclass.  If all types come from source texts, nothing has a chain as long as the root is missing or has a
superclass. -/
theorem Reachable.ask_chain_last (hs : s.Reachable (some id)) :
    (∀ c types, (s.ask (.chain c)).1 = .ok (.handles types) →
        ∃ t node, types.getLast? = some t ∧ s.hierarchy.node? t = some node ∧
          ((s.hierarchy.root? = some t ∧ node.id = id) ∨ (∃ is, node.ancestry = .binary none is) ∨
            ∃ is, node.ancestry = .synthetic none is)) ∧
      ((∀ node ∈ s.hierarchy.types, ∃ superclass names, node.ancestry = .source superclass names) →
        (∀ c types, (s.ask (.chain c)).1 = .ok (.handles types) →
          ∃ r, s.hierarchy.root? = some r ∧ types.getLast? = some r ∧
            (s.ask (.chain r)).1 = .ok (.handles [r])) ∧
        (s.hierarchy.find? id = none → ∀ c, ∃ e, (s.ask (.chain c)).1 = .error e) ∧
        ∀ r node parent names, s.hierarchy.find? id = some r → s.hierarchy.node? r = some node →
          node.ancestry = .source (some parent) names → ∀ c, ∃ e, (s.ask (.chain c)).1 = .error e) := by
  have hw := hs.hierarchy.wellFormed
  have root : s.hierarchy.implicitRoot = some id := hs.hierarchy.implicitRoot_eq
  simp only [hs.ask_chain_iff, hs.ask_chain_error_iff]
  refine ⟨fun c types e => ?_, fun sources => ⟨fun c types e => ?_, fun absent => ?_, ?_⟩⟩
  · obtain ⟨t, node, last, -, there, kind⟩ := hw.exists_last_of_chain root e
    exact ⟨t, node, last, there, kind⟩
  · obtain ⟨r, isRoot, last, top⟩ := hw.exists_root_of_chain root sources e
    exact ⟨r, isRoot, last, Hierarchy.chain_of_root top⟩
  · exact hw.exists_chain_error root sources (by simp [absent])
  · intro r node parent names found there source
    refine hw.exists_chain_error root sources fun r' found' => ?_
    cases found.symm.trans found'
    exact Hierarchy.superclass_ne_none_of_source there source

/-- Three source types, the last of which is the implicit root; the first one gives the second as its superclass,
and what the last one gives is left open. -/
def rooted (parent : Option TypeId) : Scope :=
  let named (n : UInt32) : TypeId := ⟨⟨.empty⟩, ⟨n⟩⟩
  loaded (some (named 3)) [.new (named 1) (.source (some (named 2)) []), .new (named 2) (.source none []),
    .new (named 3) (.source parent [])]

/-- If the last type gives no superclass, the chains end there; if it gives the first one, there are no chains. -/
theorem ask_chain_last_rooted :
    ((rooted none).Reachable (some ⟨⟨.empty⟩, ⟨3⟩⟩) ∧
        ((rooted none).ask (.chain ⟨0⟩)).1 = .ok (.handles [⟨0⟩, ⟨1⟩, ⟨2⟩]) ∧
        (rooted none).hierarchy.root? = some ⟨2⟩ ∧
        ((rooted none).ask (.chain ⟨2⟩)).1 = .ok (.handles [⟨2⟩])) ∧
      (rooted (some ⟨⟨.empty⟩, ⟨1⟩⟩)).Reachable (some ⟨⟨.empty⟩, ⟨3⟩⟩) ∧
        ∀ c, ∃ e, ((rooted (some ⟨⟨.empty⟩, ⟨1⟩⟩)).ask (.chain c)).1 = .error e := by
  have reachable (parent : Option TypeId) : (rooted parent).Reachable (some ⟨⟨.empty⟩, ⟨3⟩⟩) :=
    reachable_loaded _ _
  have sources (parent : Option TypeId) : ∀ node ∈ (rooted parent).hierarchy.types,
      ∃ superclass names, node.ancestry = .source superclass names := by
    intro node there
    have ancestries : (rooted parent).hierarchy.types.map (·.ancestry) =
        [.source (some ⟨⟨.empty⟩, ⟨2⟩⟩) [], .source none [], .source parent []] := rfl
    have mem : node.ancestry ∈ (rooted parent).hierarchy.types.map (·.ancestry) := List.mem_map_of_mem there
    rw [ancestries] at mem
    simp only [List.mem_cons, List.not_mem_nil, or_false] at mem
    rcases mem with e | e | e <;> exact ⟨_, _, e⟩
  have complete : ((rooted none).ask (.chain ⟨0⟩)).1 = .ok (.handles [⟨0⟩, ⟨1⟩, ⟨2⟩]) := by decide +kernel
  obtain ⟨-, single⟩ := (reachable none).ask_chain_last
  obtain ⟨r, isRoot, last, own⟩ := (single (sources none)).1 _ _ complete
  obtain rfl : ⟨2⟩ = r := Option.some.inj last
  obtain ⟨-, single'⟩ := (reachable (some ⟨⟨.empty⟩, ⟨1⟩⟩)).ask_chain_last
  refine ⟨⟨reachable none, complete, isRoot, own⟩, reachable _, ?_⟩
  exact (single' (sources _)).2.2 ⟨2⟩ _ _ _ (by decide +kernel) rfl rfl

end Scope

end Lineage
