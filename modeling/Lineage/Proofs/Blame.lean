import Lineage.Proofs.Defect

/-!
# What a failure tells

A question about a type of the hierarchy, or a walk along its superclasses, fails for a reason that can be
read off the hierarchy at the type that the failure names: the type asks for a superclass or an interface
that is not there, or it lies on a circle of superclasses.  Since that type is there, the failure is
explained by its name.

Main facts: `Climb.failsIn_take` (walks) and, at the end, `ask_failure_blames` (all failures of a scope).
-/

namespace Lineage

namespace Hierarchy

variable {h : Hierarchy} {c : Handle} {node : TypeNode} {q : Query Symbol} {e : ResolveError}

/-- A failure that a walk along the superclasses gives is a defect above the type where it starts. -/
theorem defect_of_mem_take {n : Nat} (he : some (.error e) ∈ (Ascent.start c).take h n) :
    h.Defect c (h.Above c) e := by
  obtain ⟨types, ending, hc⟩ := exists_climb h [] c
  obtain ⟨t, -, he⟩ | he | he := hc.of_mem_take he
  · cases he
  · cases ending with
    | none => cases he
    | some e' =>
      cases he
      exact hc.defect
  · cases he

/-- What a walk comes to is among what any question about the type comes to. -/
theorem reaches_of_above {t : Handle} (above : h.Above q.subject t) : h.Reaches q t := by
  cases q with
  | interfaceClosure c => exact ⟨t, above, .refl⟩
  | implements c i => exact ⟨t, above, .refl⟩
  | _ => exact above

/-- The types at which a failure may lie belong to the hierarchy. -/
theorem WellFormed.lt_size_of_defect (hw : h.WellFormed) (known : q.subject.index < h.size)
    (he : h.Defect q.subject (h.Reaches q) e) : e.type.index < h.size := by
  cases he with
  | missingSuperclass above there _ _ => exact lt_size_of_node? there
  | missingInterface near there _ _ => exact lt_size_of_node? there
  | cycle above own => exact hw.lt_size_of_above known above
  | foreign near absent => exact hw.lt_size_of_reaches known near

theorem nameOf_of_some (hn : h.node? c = some node) (t : SymbolTable) :
    ResolveError.explain.nameOf h t c = node.id.display t := by
  rw [ResolveError.explain.nameOf, hn]

end Hierarchy

namespace Scope

variable {root : Option TypeId} {s : Scope} {q : Query Symbol} {e : ResolveError}

/-- **A failure names the defect and the place where it is.**  A question about a type of the hierarchy, or a walk
from it, fails over a missing superclass, a missing interface or a circle at a type that is reached on the
way, and the failure is explained by the name of that type. -/
theorem Reachable.ask_failure_blames (hs : s.Reachable root)
    (known : q.subject.index < s.hierarchy.size)
    (failed : (s.ask q).1 = .error e ∨
      ∃ n, some (.error e) ∈ (Ascent.start q.subject).take s.hierarchy n) :
    e.type.index < s.hierarchy.size ∧ ∃ node, s.hierarchy.node? e.type = some node ∧
      ((∃ id, e = .missingSuperclass e.type id ∧ s.hierarchy.Above q.subject e.type ∧
          ((∃ is, node.ancestry = .source (some id) is) ∨
            (∃ is, node.ancestry = .binary (some id) is) ∨
            ∃ is, node.ancestry = .source none is ∧ root = some id ∧ id ≠ node.id) ∧
          s.hierarchy.find? id = none ∧
          ∀ t, e.explain s.hierarchy t =
            "cannot resolve superclass " ++ id.display t ++ " of " ++ node.id.display t) ∨
        (∃ id, e = .missingInterface e.type id ∧ s.hierarchy.Reaches q e.type ∧
          (∃ superclass names, (node.ancestry = .source superclass names ∨
            node.ancestry = .binary superclass names) ∧ id ∈ names) ∧
          s.hierarchy.find? id = none ∧
          ∀ t, e.explain s.hierarchy t =
            "cannot resolve interface " ++ id.display t ++ " of " ++ node.id.display t) ∨
        (e = .cycle e.type ∧ s.hierarchy.Above q.subject e.type ∧
          s.hierarchy.OwnAncestor e.type ∧
          ∀ t, e.explain s.hierarchy t = node.id.display t ++ " is its own ancestor")) := by
  have hw := hs.hierarchy.wellFormed
  have defect : s.hierarchy.Defect q.subject (s.hierarchy.Reaches q) e := by
    rcases failed with answer | ⟨n, walk⟩
    · exact Hierarchy.failsIn_answer s.hierarchy q e (hs.ask_eq q ▸ answer)
    · exact (Hierarchy.defect_of_mem_take walk).mono fun t => Hierarchy.reaches_of_above
  have inside := hw.lt_size_of_defect known defect
  obtain ⟨node, hnode⟩ := Hierarchy.exists_node? inside
  refine ⟨inside, node, hnode, ?_⟩
  cases defect with
  | missingSuperclass above there named absent =>
    cases hnode.symm.trans there
    rw [Hierarchy.superclassName_eq_some_iff, hs.hierarchy.implicitRoot_eq] at named
    refine .inl ⟨_, rfl, above, named, absent, fun t => ?_⟩
    exact congrArg (_ ++ ·) (Hierarchy.nameOf_of_some there t)
  | missingInterface near there named absent =>
    cases hnode.symm.trans there
    rw [Ancestry.mem_interfaceNames_iff] at named
    refine .inr (.inl ⟨_, rfl, near, named, absent, fun t => ?_⟩)
    exact congrArg (_ ++ ·) (Hierarchy.nameOf_of_some there t)
  | cycle above own =>
    refine .inr (.inr ⟨rfl, above, own, fun t => ?_⟩)
    exact congrArg (· ++ _) (Hierarchy.nameOf_of_some hnode t)
  | foreign near absent => cases hnode.symm.trans absent

/-- Types of a hierarchy whose implicit root is missing: a compiled type below one of a source text that
names no superclass, and a type with an interface that extends a missing one. -/
def rootless : Scope :=
  let named (n : UInt32) : TypeId := ⟨⟨.empty⟩, ⟨n⟩⟩
  loaded (some (named 0)) [.new (named 1) (.binary (some (named 2)) []),
    .new (named 2) (.source none []),
    .new (named 3) (.binary none [named 4]),
    .new (named 4) (.binary none [named 5])]

/-- The chain of the first type fails at the second one, which falls back on the implicit root; the
closure of the third fails at its interface, which is no superclass. -/
theorem ask_failure_blames_rootless :
    rootless.Reachable (some ⟨⟨.empty⟩, ⟨0⟩⟩) ∧
      (rootless.ask (.chain ⟨0⟩)).1 = .error (.missingSuperclass ⟨1⟩ ⟨⟨.empty⟩, ⟨0⟩⟩) ∧
      rootless.hierarchy.Above ⟨0⟩ ⟨1⟩ ∧
      rootless.hierarchy.find? ⟨⟨.empty⟩, ⟨0⟩⟩ = none ∧
      (rootless.ask (.implements ⟨2⟩ ⟨0⟩)).1 = .error (.missingInterface ⟨3⟩ ⟨⟨.empty⟩, ⟨5⟩⟩) ∧
      rootless.hierarchy.Extended ⟨2⟩ ⟨3⟩ ∧
      rootless.hierarchy.find? ⟨⟨.empty⟩, ⟨5⟩⟩ = none := by
  have reachable : rootless.Reachable (some ⟨⟨.empty⟩, ⟨0⟩⟩) := reachable_loaded _ _
  have first : (rootless.ask (.chain ⟨0⟩)).1 =
      .error (.missingSuperclass ⟨1⟩ ⟨⟨.empty⟩, ⟨0⟩⟩) := by
    decide +kernel
  have second : (rootless.ask (.implements ⟨2⟩ ⟨0⟩)).1 =
      .error (.missingInterface ⟨3⟩ ⟨⟨.empty⟩, ⟨5⟩⟩) := by
    decide +kernel
  have known {c : Handle} (hc : c.index < 4) : c.index < rootless.hierarchy.size :=
    Nat.lt_of_lt_of_eq hc (by decide +kernel)
  obtain ⟨-, _, -, superclass⟩ := reachable.ask_failure_blames (known (by decide)) (.inl first)
  obtain ⟨-, _, -, interface⟩ := reachable.ask_failure_blames (known (by decide)) (.inl second)
  obtain ⟨_, ⟨⟩, above, -, absent, -⟩ | ⟨_, ⟨⟩, -⟩ | ⟨⟨⟩, -⟩ := superclass
  obtain ⟨_, ⟨⟩, -⟩ | ⟨_, ⟨⟩, near, -, absent', -⟩ | ⟨⟨⟩, -⟩ := interface
  exact ⟨reachable, first, above, absent, second, near, absent'⟩

end Scope

end Lineage
