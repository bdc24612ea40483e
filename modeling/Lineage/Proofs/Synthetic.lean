import Lineage.Proofs.Blame
import Lineage.Proofs.Level

/-!
# Synthetic ancestry

A type that an analysis puts together refers to earlier types by handle.  So an edge from such a type leads
to a smaller handle, and where there are no other types nothing can be missing and nothing can go round in a
circle.

Main facts: `WellFormed.lt_of_parent` (one edge), `WellFormed.ascend_lt` (a way along superclasses),
`Climb.descends` and `SyntheticAbove.exists_answer`; at the end the answers of a scope, and what circles of
superclasses are made of.
-/

namespace Lineage.Hierarchy

variable {h : Hierarchy} {c t u : Handle} {n : Nat} {types : List Handle} {q : Query Symbol}

/-- A type that an analysis put together. -/
def Synthetic (h : Hierarchy) (t : Handle) : Prop :=
  ∃ node superclass interfaces, h.node? t = some node ∧
    node.ancestry = .synthetic superclass interfaces

/-- A direct ancestor: the superclass or a direct interface. -/
def Parent (h : Hierarchy) (t u : Handle) : Prop := h.superclass t = .ok (some u) ∨ h.Extends t u

/-- Every type that is reached by superclasses and direct interfaces was put together by an analysis. -/
def SyntheticAbove (h : Hierarchy) (c : Handle) : Prop :=
  ∀ t, Relation.ReflTransGen h.Parent c t → h.Synthetic t

theorem synthetic_of_representation {node : TypeNode} (there : h.node? t = some node)
    (e : node.ancestry.representation = "synthetic") : h.Synthetic t := by
  cases ha : node.ancestry with
  | source superclass names => simp [ha, Ancestry.representation] at e
  | binary superclass names => simp [ha, Ancestry.representation] at e
  | synthetic superclass interfaces => exact ⟨node, superclass, interfaces, there, ha⟩

/-- A type has one of the three representations. -/
theorem exists_named_of_not_synthetic {node : TypeNode} (there : h.node? t = some node)
    (other : ¬ h.Synthetic t) : ∃ superclass names, node.ancestry = .source superclass names ∨
      node.ancestry = .binary superclass names := by
  cases e : node.ancestry with
  | source superclass names => exact ⟨superclass, names, .inl rfl⟩
  | binary superclass names => exact ⟨superclass, names, .inr rfl⟩
  | synthetic superclass interfaces =>
    exact absurd ⟨node, superclass, interfaces, there, e⟩ other

/-! ### Edges of a synthetic type -/

namespace Synthetic

/-- A synthetic type has no superclass to look up. -/
theorem superclassName_eq_none (ht : h.Synthetic t) {node : TypeNode} (there : h.node? t = some node) :
    h.superclassName node = none := by
  obtain ⟨node', superclass, interfaces, there', e⟩ := ht
  cases there.symm.trans there'
  rw [superclassName, e]

/-- Nor has it interfaces to look up. -/
theorem interfaceNames_eq_nil (ht : h.Synthetic t) {node : TypeNode} (there : h.node? t = some node) :
    node.ancestry.interfaceNames = [] := by
  obtain ⟨node', superclass, interfaces, there', e⟩ := ht
  cases there.symm.trans there'
  rw [e, Ancestry.interfaceNames]

end Synthetic

namespace WellFormed

variable (hw : h.WellFormed)
include hw

/-- **An edge from a synthetic type leads to an earlier type.** -/
theorem lt_of_parent (ht : h.Synthetic t) (edge : h.Parent t u) : u.index < t.index := by
  rcases edge with up | ⟨is, e, mem⟩
  · obtain ⟨node, there, ⟨interfaces, recorded⟩ | ⟨id, named, -⟩⟩ := of_superclass_some up
    · exact hw.handles_lt there (by simp [recorded, Ancestry.handles])
    · cases (ht.superclassName_eq_none there).symm.trans named
  · obtain ⟨node, there, recorded | ⟨id, named, -⟩⟩ := of_mem_interfaces e mem
    · exact hw.handles_lt there recorded
    · rw [ht.interfaceNames_eq_nil there] at named
      exact absurd named List.not_mem_nil

/-- It is enough that all types up to some point are synthetic. -/
theorem syntheticAbove_of_earlier (all : ∀ t, t.index ≤ c.index → h.Synthetic t) :
    h.SyntheticAbove c := by
  have bounded {t : Handle} (path : Relation.ReflTransGen h.Parent c t) : t.index ≤ c.index := by
    induction path with
    | refl => exact Nat.le_refl _
    | tail _ edge ih => exact Nat.le_trans (Nat.le_of_lt (hw.lt_of_parent (all _ ih) edge)) ih
  exact fun t path => all t (bounded path)

/-- A way along the superclasses of synthetic types leads to earlier and earlier types. -/
theorem ascend_lt (synthetic : ∀ i < n, ∀ u, h.ascend t i = some u → h.Synthetic u)
    (pos : 0 < n) (hn : h.ascend t n = some c) : c.index < t.index := by
  induction n generalizing c with
  | zero => exact absurd pos (Nat.lt_irrefl 0)
  | succ n ih =>
    obtain ⟨u, hu, up⟩ := of_ascend_succ hn
    have step := hw.lt_of_parent (synthetic n (Nat.lt_succ_self n) u hu) (.inl up)
    cases n with
    | zero =>
      cases hu
      exact step
    | succ n =>
      have earlier := ih (fun i hi => synthetic i (Nat.lt_succ_of_lt hi)) (Nat.succ_pos n) hu
      exact Nat.lt_trans step earlier

/-- **A circle of superclasses** does not consist of synthetic types. -/
theorem exists_not_synthetic_of_circle (pos : 0 < n) (back : h.ascend t n = some t) :
    ∃ i < n, ∃ u, h.ascend t i = some u ∧ ¬ h.Synthetic u := by
  by_contra none
  have all : ∀ i < n, ∀ u, h.ascend t i = some u → h.Synthetic u := by
    intro i hi u hu
    by_contra other
    exact none ⟨i, hi, u, hu, other⟩
  exact Nat.lt_irrefl _ (hw.ascend_lt all pos back)

end WellFormed

/-! ### Above synthetic types -/

/-- A chain of synthetic types comes to earlier and earlier ones. -/
theorem Climb.descends {met : List Handle} {ending : Option ResolveError} (hw : h.WellFormed)
    (hc : h.Climb met c types ending) (synthetic : ∀ t ∈ types, h.Synthetic t) :
    types.Pairwise (fun t u => u.index < t.index) ∧ ∀ t ∈ types, t.index ≤ c.index := by
  induction hc with
  | again old => simp
  | foreign new e => simp
  | broken new e => simp
  | root new e => simp
  | @up _ c p types _ new e rest ih =>
    obtain ⟨first, others⟩ := List.forall_mem_cons.mp synthetic
    obtain ⟨descending, bounded⟩ := ih others
    have step := hw.lt_of_parent first (.inl e)
    refine ⟨List.pairwise_cons.mpr ⟨fun t ht => Nat.lt_of_le_of_lt (bounded t ht) step, descending⟩, ?_⟩
    refine List.forall_mem_cons.mpr ⟨Nat.le_refl _, fun t ht => ?_⟩
    exact Nat.le_trans (bounded t ht) (Nat.le_of_lt step)

theorem parents_of_above (above : h.Above c t) : Relation.ReflTransGen h.Parent c t :=
  above.induction .refl fun _ _ path up => path.tail (.inl up)

theorem parents_of_extended (near : h.Extended c t) : Relation.ReflTransGen h.Parent c t := by
  obtain ⟨u, above, path⟩ := near
  exact (parents_of_above above).trans (path.lift id fun _ _ step => .inr step)

/-- Whatever a question comes to is reached along the edges. -/
theorem parents_of_reaches (near : h.Reaches q t) : Relation.ReflTransGen h.Parent q.subject t := by
  cases q with
  | interfaceClosure c => exact parents_of_extended near
  | implements c i => exact parents_of_extended near
  | _ => exact parents_of_above near

namespace SyntheticAbove

variable (hs : h.SyntheticAbove c)
include hs

theorem le_of_parents (hw : h.WellFormed) (path : Relation.ReflTransGen h.Parent c t) :
    t.index ≤ c.index := by
  induction path with
  | refl => exact Nat.le_refl _
  | tail path edge ih => exact Nat.le_trans (Nat.le_of_lt (hw.lt_of_parent (hs _ path) edge)) ih

/-- An ancestor by way of an interface is an earlier type. -/
theorem lt_of_extends (hw : h.WellFormed) (path : Relation.ReflTransGen h.Parent c u)
    (step : h.Extends u t) : t.index < c.index :=
  Nat.lt_of_lt_of_le (hw.lt_of_parent (hs u path) (.inr step)) (hs.le_of_parents hw path)

/-- **There is no defect above a synthetic type.** -/
theorem not_defect (hw : h.WellFormed) {reached : Handle → Prop} {e : ResolveError}
    (near : ∀ t, reached t → Relation.ReflTransGen h.Parent c t) : ¬ h.Defect c reached e := by
  intro defect
  cases defect with
  | missingSuperclass above there named absent =>
    cases ((hs _ (parents_of_above above)).superclassName_eq_none there).symm.trans named
  | missingInterface reached there named absent =>
    rw [(hs _ (near _ reached)).interfaceNames_eq_nil there] at named
    exact absurd named List.not_mem_nil
  | cycle above own =>
    obtain ⟨n, pos, back⟩ := own
    obtain ⟨i, -, u, hu, other⟩ := hw.exists_not_synthetic_of_circle pos back
    exact other (hs u ((parents_of_above above).trans (parents_of_above ⟨i, hu⟩)))
  | foreign reached absent =>
    obtain ⟨node, -, -, there, -⟩ := hs _ (near _ reached)
    cases absent.symm.trans there

theorem exists_answer (hw : h.WellFormed) (hq : q.subject = c) : ∃ a, h.answer q = .ok a := by
  subst hq
  cases e : h.answer q with
  | ok a => exact ⟨a, rfl⟩
  | error err =>
    have defect := failsIn_answer h q err e
    exact absurd defect (hs.not_defect hw fun t near => parents_of_reaches near)

/-- What a walk meets, it meets without a failure. -/
theorem exists_of_mem_take (hw : h.WellFormed) {item : Except ResolveError Handle}
    (hi : some item ∈ (Ascent.start c).take h n) : ∃ t, item = .ok t := by
  cases item with
  | ok t => exact ⟨t, rfl⟩
  | error e =>
    exact absurd (defect_of_mem_take hi) (hs.not_defect hw fun t above => parents_of_above above)

theorem chain_descends (hw : h.WellFormed) (e : h.chain c = .ok types) :
    types.Pairwise fun t u => u.index < t.index := by
  have hc := climb_of_chain_eq_ok e
  exact (hc.descends hw fun t ht => hs t (parents_of_above (hc.above_of_mem ht))).1

theorem lt_of_mem_chainInterfaces (hw : h.WellFormed) (e : h.chainInterfaces c = .ok types)
    (ht : t ∈ types) : t.index < c.index := by
  obtain ⟨u, above, step⟩ := exists_extends_of_chainInterfaces e ht
  exact hs.lt_of_extends hw (parents_of_above above) step

theorem lt_of_mem_interfaceClosure (hw : h.WellFormed) (e : h.interfaceClosure c = .ok types)
    (ht : t ∈ types) : t.index < c.index := by
  obtain ⟨u, extended, step⟩ := exists_extends_of_interfaceClosure e ht
  exact hs.lt_of_extends hw (parents_of_extended extended) step

end SyntheticAbove

end Hierarchy

/-! ### Synthetic types of a scope -/

namespace Scope

open Hierarchy

variable {root : Option TypeId} {s : Scope}

/-- **Synthetic ancestry cannot fail**, and handles get smaller on the way up it.  So in every scope a circle of
superclasses comes through a type that names its ancestors, from a source text or compiled. -/
theorem Reachable.ask_synthetic (hs : s.Reachable root) :
    (∀ c : Handle,
      (∀ t, Relation.ReflTransGen
          (fun t u => s.hierarchy.superclass t = .ok (some u) ∨
            ∃ is, s.hierarchy.interfaces t = .ok is ∧ u ∈ is) c t →
        ∃ node superclass interfaces, s.hierarchy.node? t = some node ∧
          node.ancestry = .synthetic superclass interfaces) →
      (∀ q : Query Symbol, q.subject = c → ∃ a, (s.ask q).1 = .ok a) ∧
      (∀ n item, some item ∈ (Ascent.start c).take s.hierarchy n → ∃ t, item = .ok t) ∧
      (∃ types, (s.ask (.chain c)).1 = .ok (.handles types) ∧
        types.Pairwise fun t u => u.index < t.index) ∧
      (∃ is, (s.ask (.chainInterfaces c)).1 = .ok (.handles is) ∧ ∀ i ∈ is, i.index < c.index) ∧
      ∃ is, (s.ask (.interfaceClosure c)).1 = .ok (.handles is) ∧ ∀ i ∈ is, i.index < c.index) ∧
    ∀ (t : Handle) (n : Nat), 0 < n → s.hierarchy.ascend t n = some t →
      ∃ i < n, ∃ u node, s.hierarchy.ascend t i = some u ∧ s.hierarchy.node? u = some node ∧
        ∃ superclass names, node.ancestry = .source superclass names ∨
          node.ancestry = .binary superclass names := by
  have hw := hs.hierarchy.wellFormed
  refine ⟨fun c all => ?_, fun t n pos back => ?_⟩
  · have synthetic : s.hierarchy.SyntheticAbove c := all
    have handles {q : Query Symbol} (hq : q.subject = c) {x : Except ResolveError (List Handle)}
        (same : s.hierarchy.answer q = x.map .handles) :
        ∃ types, x = .ok types ∧ (s.ask q).1 = .ok (.handles types) := by
      obtain ⟨a, answered⟩ := synthetic.exists_answer hw hq
      obtain ⟨types, e, rfl⟩ := map_eq_ok_iff.mp (same ▸ answered)
      exact ⟨types, e, (hs.ask_eq q).trans answered⟩
    obtain ⟨types, chain, answered⟩ := handles (q := .chain c) rfl rfl
    obtain ⟨is, interfaces, answered'⟩ := handles (q := .chainInterfaces c) rfl rfl
    obtain ⟨all, closure, answered''⟩ := handles (q := .interfaceClosure c) rfl rfl
    refine ⟨fun q hq => ?_, fun n item => synthetic.exists_of_mem_take hw,
      ⟨types, answered, synthetic.chain_descends hw chain⟩,
      ⟨is, answered', fun i => synthetic.lt_of_mem_chainInterfaces hw interfaces⟩,
      ⟨all, answered'', fun i => synthetic.lt_of_mem_interfaceClosure hw closure⟩⟩
    rw [hs.ask_eq]
    exact synthetic.exists_answer hw hq
  · obtain ⟨i, hi, u, hu, other⟩ := hw.exists_not_synthetic_of_circle pos back
    -- a type of the circle is there, since the way goes on
    have more : s.hierarchy.ascend t (i + 1) ≠ none := ascend_ne_none_of_le hi (by simp [back])
    cases hn : s.hierarchy.node? u with
    | none => exact absurd (ascend_succ_of_error hu (superclass_of_foreign hn)) more
    | some node => exact ⟨i, hi, u, node, hu, hn, exists_named_of_not_synthetic hn other⟩

/-- A type made up of two others, one of which extends the other; and a compiled type whose superclass is made
up from the compiled type itself. -/
def layered : Scope :=
  let named (n : UInt32) : TypeId := ⟨⟨.empty⟩, ⟨n⟩⟩
  loaded none [.new (named 1) (.synthetic none []),
    .new (named 2) (.synthetic none [⟨0⟩]),
    .new (named 3) (.synthetic (some ⟨0⟩) [⟨1⟩]),
    .new (named 4) (.binary (some (named 5)) []),
    .new (named 5) (.synthetic (some ⟨3⟩) [])]

/-- Questions about the made-up type are answered; the circle of the other two comes through the compiled
one. -/
theorem ask_synthetic_layered :
    layered.Reachable none ∧ layered.hierarchy.SyntheticAbove ⟨2⟩ ∧
      (∀ q : Query Symbol, q.subject = ⟨2⟩ → ∃ a, (layered.ask q).1 = .ok a) ∧
      (∃ is, (layered.ask (.interfaceClosure ⟨2⟩)).1 = .ok (.handles is) ∧
        ∀ i ∈ is, i.index < 2) ∧
      layered.hierarchy.ascend ⟨4⟩ 2 = some ⟨4⟩ ∧
      ∃ i < 2, ∃ u node, layered.hierarchy.ascend ⟨4⟩ i = some u ∧
        layered.hierarchy.node? u = some node ∧
        ∃ superclass names, node.ancestry = .source superclass names ∨
          node.ancestry = .binary superclass names := by
  have reachable : layered.Reachable none := reachable_loaded none _
  have first : ∀ i ≤ 2, layered.hierarchy.Synthetic (.ofIndex i) := by
    have kind (i : Nat) (hi : i ≤ 2) : ((layered.hierarchy.node? (.ofIndex i)).map
        (·.ancestry.representation)) = some "synthetic" := by
      revert i
      decide +kernel
    intro i hi
    obtain ⟨node, there, synthetic⟩ := Option.map_eq_some_iff.mp (kind i hi)
    exact synthetic_of_representation there synthetic
  have above : layered.hierarchy.SyntheticAbove ⟨2⟩ :=
    reachable.hierarchy.wellFormed.syntheticAbove_of_earlier fun t ht =>
      Handle.ofIndex_index t ▸ first t.index ht
  have back : layered.hierarchy.ascend ⟨4⟩ 2 = some ⟨4⟩ := by decide +kernel
  obtain ⟨answers, circles⟩ := reachable.ask_synthetic
  obtain ⟨answered, -, -, -, closure⟩ := answers ⟨2⟩ above
  exact ⟨reachable, above, answered, closure, back, circles ⟨4⟩ 2 (by decide) back⟩

end Scope

end Lineage
