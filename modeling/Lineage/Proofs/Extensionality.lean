import Lineage.Proofs.Declaring
import Lineage.Proofs.Permanence

/-!
# When types are equal

A table of members is determined by the lists of its fields and of its methods, whatever its indices look like.
So it does not matter how the declarations of fields and methods alternate (`Declaration.addAll_of_rearranged`),
and two types are equal if all that was declared of them is, in order.  Each member names its type, so tables of
types under different handles differ unless nothing is in them (`Hierarchy.WellFormed.members_eq_iff`).

Main fact: `Scope.Reachable.eq_iff_declared`.
-/

namespace Lineage

theorem Members.eq_iff_lists {t t' : Members} : t = t' ↔ t.fields = t'.fields ∧ t.methods = t'.methods := by
  constructor
  · rintro rfl
    exact ⟨rfl, rfl⟩
  · exact fun ⟨fields, methods⟩ => ext_lists fields methods

theorem Members.isEmpty_iff {t : Members} : t.isEmpty = true ↔ t.fields = [] ∧ t.methods = [] := by
  simp [isEmpty]

/-- Two lists of members that have the same fields and the same methods, each in the same order. -/
def Member.Rearranged (members members' : List Member) : Prop :=
  fields members = fields members' ∧ methods members = methods members'

namespace Declaration

variable {d d₁ d₂ : Declaration} {members members' : List Member}

/-- How the declarations of fields and methods alternate does not matter. -/
theorem addAll_of_rearranged (same : Member.Rearranged members members')
    (accepted : d.bare.addAll members = .ok d₁) : d.bare.addAll members' = .ok d₁ := by
  obtain ⟨fields, methods⟩ := same
  have distinct := distinct_of_addAll accepted
  rw [Member.Distinct, fields, methods] at distinct
  obtain ⟨d₂, accepted'⟩ := exists_addAll_iff (d := d).mpr distinct
  obtain ⟨t, rfl, fields₁, methods₁⟩ := lists_of_addAll accepted
  obtain ⟨t', rfl, fields₂, methods₂⟩ := lists_of_addAll accepted'
  rw [accepted', Members.ext_lists (fields₁.trans (fields.trans fields₂.symm))
    (methods₁.trans (methods.trans methods₂.symm))]

end Declaration

/-- Types are equal if they agree in handle, identity, modifiers, position and ancestry and list the same
members. -/
theorem TypeNode.eq_iff {node node' : TypeNode} : node = node' ↔
    node.handle = node'.handle ∧ node.id = node'.id ∧ node.modifiers = node'.modifiers ∧
      node.position = node'.position ∧ node.ancestry = node'.ancestry ∧
      node.members.fields = node'.members.fields ∧ node.members.methods = node'.members.methods := by
  rw [← Members.eq_iff_lists]
  cases node
  cases node'
  simp only [mk.injEq]
  tauto

/-- Members name their type, so types under different handles have none in common. -/
theorem Hierarchy.WellFormed.members_eq_iff {h h' : Hierarchy} {c c' : Handle} {node node' : TypeNode}
    (hw : h.WellFormed) (hw' : h'.WellFormed) (there : h.node? c = some node)
    (there' : h'.node? c' = some node') (differ : c ≠ c') :
    node.members = node'.members ↔ node.members.isEmpty = true ∧ node'.members.isEmpty = true := by
  rw [Members.isEmpty_iff, Members.isEmpty_iff]
  constructor
  · intro same
    have fields : node.members.fields = [] := by
      refine List.eq_nil_iff_forall_not_mem.mpr fun f hf => differ ?_
      exact (hw.declaring_field there hf).symm.trans (hw'.declaring_field there' (same ▸ hf))
    have methods : node.members.methods = [] := by
      refine List.eq_nil_iff_forall_not_mem.mpr fun m hm => differ ?_
      exact (hw.declaring_method there hm).symm.trans (hw'.declaring_method there' (same ▸ hm))
    rw [← same]
    exact ⟨⟨fields, methods⟩, fields, methods⟩
  · rintro ⟨⟨fields, methods⟩, fields', methods'⟩
    exact Members.ext_lists (fields.trans fields'.symm) (methods.trans methods'.symm)

namespace Scope

variable {root root' : Option TypeId} {s s' : Scope} {d : Declaration} {c : Handle}

/-- An accepted declaration is settled under its handle. -/
theorem node?_add (accepted : (s.add d).1 = .ok c) :
    (s.add d).2.hierarchy.node? c = some (d.settle c) := by
  rw [Hierarchy.node?_add (hierarchy_add_of_ok accepted), if_pos rfl]

/-- **Types are equal if what was declared is**, in whichever scope and however fields and methods alternate.
Member tables under different handles are equal just if both are empty. -/
theorem Reachable.eq_iff_declared (hs : s.Reachable root) (hs' : s'.Reachable root') :
    (∀ t t' : Members, t = t' ↔ t.fields = t'.fields ∧ t.methods = t'.methods) ∧
      (∀ (d : Declaration) (members members' : List Member), Member.Rearranged members members' →
        ((∃ e, d.bare.addAll members = .error e) ∧ (∃ e, d.bare.addAll members' = .error e) ∨
          ∃ d₁, d.bare.addAll members = .ok d₁ ∧ d.bare.addAll members' = .ok d₁) ∧
        ∀ d₁ d₂ c, d.bare.addAll members = .ok d₁ → d.bare.addAll members' = .ok d₂ →
          (s.add d₁).1 = .ok c → (s'.add d₂).1 = .ok c →
            ∃ node, (s.add d₁).2.hierarchy.node? c = some node ∧
              (s'.add d₂).2.hierarchy.node? c = some node ∧ node.ancestry = d.ancestry) ∧
      ∀ c c' node node', s.hierarchy.node? c = some node → s'.hierarchy.node? c' = some node' →
        (node = node' ↔ node.handle = node'.handle ∧ node.id = node'.id ∧
          node.modifiers = node'.modifiers ∧ node.position = node'.position ∧
          node.ancestry = node'.ancestry ∧ node.members.fields = node'.members.fields ∧
          node.members.methods = node'.members.methods) ∧
        (c ≠ c' → (node.members = node'.members ↔
          node.members.isEmpty = true ∧ node'.members.isEmpty = true)) := by
  refine ⟨fun t t' => Members.eq_iff_lists, fun d members members' same => ⟨?_, ?_⟩,
    fun c c' node node' there there' => ⟨TypeNode.eq_iff, ?_⟩⟩
  · cases outcome : d.bare.addAll members with
    | ok d₁ => exact .inr ⟨d₁, rfl, Declaration.addAll_of_rearranged same outcome⟩
    | error e =>
      cases outcome' : d.bare.addAll members' with
      | error e' => exact .inl ⟨⟨e, rfl⟩, e', rfl⟩
      | ok d₂ =>
        have back := Declaration.addAll_of_rearranged ⟨same.1.symm, same.2.symm⟩ outcome'
        cases outcome.symm.trans back
  · intro d₁ d₂ c accepted accepted' added added'
    cases (Declaration.addAll_of_rearranged same accepted).symm.trans accepted'
    obtain ⟨t, rfl, -⟩ := Declaration.lists_of_addAll accepted
    exact ⟨_, node?_add added, node?_add added', rfl⟩
  · exact hs.hierarchy.wellFormed.members_eq_iff hs'.hierarchy.wellFormed there there'

/-- A compiled type with a field that the made-up type has too. -/
def compiled : Declaration :=
  { Declaration.new ⟨⟨.empty⟩, ⟨1⟩⟩ (.binary none []) with
    members := ⟨Roster.empty.add (.new ⟨1⟩ .empty .empty none), .empty⟩ }

/-- The made-up type below that one. -/
def refurnished : Scope := loaded none [compiled, madeUp]

/-- A third type, which has the members of the made-up one. -/
def remade : Declaration := { madeUp with id := ⟨⟨.empty⟩, ⟨3⟩⟩ }

/-- The third type is the same in both scopes, although its method is declared behind its field in one and before
it in the other.  The compiled type has another field than the made-up one, though it is declared in the same
way. -/
theorem eq_iff_declared_furnished :
    furnished.Reachable none ∧ refurnished.Reachable none ∧
      remade.bare.addAll [.field (.new ⟨1⟩ .empty .empty none),
        .method (.new ⟨⟨2⟩, .empty⟩ .empty none)] = .ok remade ∧
      remade.bare.addAll [.method (.new ⟨⟨2⟩, .empty⟩ .empty none),
        .field (.new ⟨1⟩ .empty .empty none)] = .ok remade ∧
      (∃ node, (furnished.add remade).2.hierarchy.node? ⟨2⟩ = some node ∧
        (refurnished.add remade).2.hierarchy.node? ⟨2⟩ = some node) ∧
      furnished.hierarchy.node? ⟨1⟩ = some (madeUp.settle ⟨1⟩) ∧
      refurnished.hierarchy.node? ⟨0⟩ = some (compiled.settle ⟨0⟩) ∧
      (madeUp.settle ⟨1⟩).members ≠ (compiled.settle ⟨0⟩).members := by
  have reachable : furnished.Reachable none := reachable_loaded none _
  have reachable' : refurnished.Reachable none := reachable_loaded none _
  have accepted : remade.bare.addAll [.field (.new ⟨1⟩ .empty .empty none),
      .method (.new ⟨⟨2⟩, .empty⟩ .empty none)] = .ok remade := by decide +kernel
  have accepted' : remade.bare.addAll [.method (.new ⟨⟨2⟩, .empty⟩ .empty none),
      .field (.new ⟨1⟩ .empty .empty none)] = .ok remade := by decide +kernel
  have made : furnished.hierarchy.node? ⟨1⟩ = some (madeUp.settle ⟨1⟩) := by decide +kernel
  have below : refurnished.hierarchy.node? ⟨0⟩ = some (compiled.settle ⟨0⟩) := by decide +kernel
  obtain ⟨-, declared, types⟩ := reachable.eq_iff_declared reachable'
  obtain ⟨-, same⟩ := declared remade _ _ ⟨rfl, rfl⟩
  obtain ⟨node, there, there', -⟩ :=
    same remade remade ⟨2⟩ accepted accepted' (by decide +kernel) (by decide +kernel)
  refine ⟨reachable, reachable', accepted, accepted', ⟨node, there, there'⟩, made, below, fun equal => ?_⟩
  obtain ⟨-, apart⟩ := types _ _ _ _ made below
  exact absurd ((apart (by decide)).mp equal).1 (by decide +kernel)

end Scope

end Lineage
