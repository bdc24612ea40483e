import Lineage.Proofs.Lookup
import Lineage.Proofs.Union

/-!
# Fields found and fields listed

The list of all fields of a chain has the instance fields of all types before any static field, so the
field that a lookup finds is not the first of its name in the list.  It is the one whose owner stands
first in the chain (`Foremost`): each field names its owner, and an owner has one field of a name.

Main facts: `nearest_iff_foremost`, for any members that name their owner, and `lookUp_eq_some_iff` and
`lookUp_eq_none_iff` on a complete chain; at the end the answers of a scope.
-/

namespace Lineage

/-- `a` is one of `items` with key `k`, and no other one with that key has its owner at an earlier place
of `row`. -/
def Foremost {κ α : Type} (key : α → κ) (owner : α → Handle) (row : List Handle) (items : List α)
    (k : κ) (a : α) : Prop :=
  a ∈ items ∧ key a = k ∧ ∀ b ∈ items, key b = k → row.idxOf (owner a) ≤ row.idxOf (owner b)

section Foremost

variable {κ α : Type} [Ord κ] [Std.TransOrd κ] {key : α → κ} {owner : α → Handle}
  {declared : Handle → Roster key} {types : List Handle} {items : List α} {k : κ} {a : α}

/-- The nearest declaration is the foremost one, if each item tells which type has declared it. -/
theorem nearest_iff_foremost
    (listed : ∀ a, a ∈ items ↔ ∃ t ∈ types, a ∈ (declared t).toList)
    (owned : ∀ t, ∀ a ∈ (declared t).toList, owner a = t) :
    (∃ t, Nearest declared types k t a) ↔ Foremost key owner types items k a := by
  constructor
  · rintro ⟨t, before, after, rfl, ha, hk, none⟩
    refine ⟨(listed a).mpr ⟨t, by simp, ha⟩, hk, fun b hb hkb => ?_⟩
    obtain ⟨u, -, hb⟩ := (listed b).mp hb
    -- neither owner stands before the split, and that of `a` stands right there
    have ht : t ∉ before := fun hm => none t hm a ha hk
    have hu : u ∉ before := fun hm => none u hm b hb hkb
    rw [owned t a ha, owned u b hb, List.idxOf_append_of_notMem ht, List.idxOf_append_of_notMem hu,
      List.idxOf_cons_self]
    exact Nat.le_add_right _ _
  · rintro ⟨ha, hk, least⟩
    obtain ⟨t, ht, ha⟩ := (listed a).mp ha
    obtain ⟨before, after, rfl, first⟩ := List.eq_append_cons_of_mem ht
    refine ⟨t, before, after, rfl, ha, hk, fun u hu b hb hkb => ?_⟩
    have later := least b ((listed b).mpr ⟨u, List.mem_append_left _ hu, hb⟩) hkb
    have earlier : before.idxOf u < before.length := List.idxOf_lt_length_of_mem hu
    rw [owned t a ha, owned u b hb, List.idxOf_append_of_notMem first, List.idxOf_append_of_mem hu] at later
    omega

end Foremost

/-- What is picked out of each of several lists is what is picked out of all of them. -/
theorem mem_flatMap_filter_iff {ι α : Type} {row : List ι} {a : α} (part : ι → List α) (p : α → Bool) :
    a ∈ row.flatMap (fun i => (part i).filter p) ↔ (∃ i ∈ row, a ∈ part i) ∧ p a = true := by
  rw [← List.filter_flatMap, List.mem_filter, List.mem_flatMap]

namespace Hierarchy

variable {h : Hierarchy} {c t : Handle} {types : List Handle} {f : Field} {fs : List Field}
  {name : Symbol}

/-! ### Lists of fields -/

theorem mem_instanceFieldsAlong_iff : f ∈ h.instanceFieldsAlong types ↔
    (∃ t ∈ types, f ∈ (h.ownMembers t).fields) ∧ f.isStatic = false := by
  rw [instanceFieldsAlong, ← Bool.not_eq_true']
  exact mem_flatMap_filter_iff _ Field.isInstance

theorem mem_staticFieldsAlong_iff : f ∈ h.staticFieldsAlong types ↔
    (∃ t ∈ types, f ∈ (h.ownMembers t).fields) ∧ f.isStatic = true :=
  mem_flatMap_filter_iff _ Field.isStatic

theorem mem_fieldsAlong_iff :
    f ∈ h.instanceFieldsAlong types ++ h.staticFieldsAlong types ↔
      ∃ t ∈ types, f ∈ (h.ownMembers t).fields := by
  rw [(h.perm_fieldsAlong types).mem_iff, List.mem_flatMap]

/-- If all fields can be listed, the chain is complete. -/
theorem of_chainFields_ok (e : h.chainFields c = .ok fs) : ∃ types, h.chain c = .ok types ∧
    fs = h.instanceFieldsAlong types ++ h.staticFieldsAlong types := by
  cases hc : h.chain c with
  | error err => cases e.symm.trans (chainFields_of_error hc)
  | ok types =>
    cases e.symm.trans (chainFields_of_ok hc)
    exact ⟨types, rfl, rfl⟩

/-! ### Lookups on a complete chain -/

section LookUp

variable {κ α : Type} [Ord κ] [Std.TransOrd κ] {key : α → κ} {declared : Handle → Roster key}
  {k : κ} {a : α}

theorem lookUp_eq_some_iff (hc : h.chain c = .ok types) :
    h.lookUp declared c k = .ok (some a) ↔ ∃ t, Nearest declared types k t a := by
  rw [← findSome?_eq_some_iff_nearest]
  exact (climb_of_chain_eq_ok hc).search_eq_ok_some_iff

theorem lookUp_eq_none_iff (hc : h.chain c = .ok types) :
    h.lookUp declared c k = .ok none ↔ ∀ t ∈ types, ∀ a ∈ (declared t).toList, key a ≠ k := by
  rw [← findSome?_eq_none_iff_undeclared, (climb_of_chain_eq_ok hc).lookUp_eq]
  cases types.findSome? fun t => (declared t).find? k <;> simp

end LookUp

/-- **On a complete chain** a lookup finds the foremost field of its name. -/
theorem WellFormed.findField_eq_some_iff (hw : h.WellFormed) (hc : h.chain c = .ok types) :
    h.findField c name = .ok (some f) ↔
      Foremost Field.name Field.declaring types
        (h.instanceFieldsAlong types ++ h.staticFieldsAlong types) name f := by
  rw [findField_eq_lookUp, lookUp_eq_some_iff hc]
  exact nearest_iff_foremost (fun _ => mem_fieldsAlong_iff)
    fun _ _ hf => (hw.declaring_of_mem_fields hf).1

/-- It finds nothing if there is no field of that name. -/
theorem findField_eq_none_iff (hc : h.chain c = .ok types) : h.findField c name = .ok none ↔
    ∀ f ∈ h.instanceFieldsAlong types ++ h.staticFieldsAlong types, f.name ≠ name := by
  rw [findField_eq_lookUp, lookUp_eq_none_iff hc]
  simp only [mem_fieldsAlong_iff]
  exact ⟨fun none f ⟨t, ht, hf⟩ => none t ht f hf, fun none t ht f hf => none f ⟨t, ht, hf⟩⟩

end Hierarchy

namespace Scope

variable {root : Option TypeId} {s : Scope} {c : Handle} {fs : List Field}

/-- **What a lookup finds is in the list of all fields**, namely the field of its name whose owner stands first in
the chain.  Static and instance fields are told apart by their modifiers, and not by what they shadow. -/
theorem Reachable.ask_field_foremost (hs : s.Reachable root)
    (list : (s.ask (.chainFields c)).1 = .ok (.fields fs)) :
    ∃ (types : List Handle) (instances statics : List Field),
      (s.ask (.chain c)).1 = .ok (.handles types) ∧
      (s.ask (.chainInstanceFields c)).1 = .ok (.fields instances) ∧
      (s.ask (.chainStaticFields c)).1 = .ok (.fields statics) ∧
      (∀ name,
        (∀ f, (s.ask (.field c name)).1 = .ok (.field (some f)) ↔
          Foremost Field.name Field.declaring types fs name f) ∧
        (∀ f g, Foremost Field.name Field.declaring types fs name f →
          Foremost Field.name Field.declaring types fs name g → f = g) ∧
        ((s.ask (.field c name)).1 = .ok (.field none) ↔ ∀ f ∈ fs, f.name ≠ name)) ∧
      ∀ f ∈ fs, f.declaring ∈ types ∧ (f ∈ statics ↔ f.modifiers.contains .staticFlag = true) ∧
        (f ∈ instances ↔ f.modifiers.contains .staticFlag = false) := by
  have hw := hs.hierarchy.wellFormed
  obtain ⟨types, hc, rfl⟩ := Hierarchy.of_chainFields_ok
    ((hs.ask_eq_ok_iff rfl fun _ => Answer.fields.inj).mp list)
  refine ⟨types, _, _, (hs.ask_eq_ok_iff rfl fun _ => Answer.handles.inj).mpr hc,
    (hs.ask_eq_ok_iff rfl fun _ => Answer.fields.inj).mpr (Hierarchy.chainInstanceFields_of_ok hc),
    (hs.ask_eq_ok_iff rfl fun _ => Answer.fields.inj).mpr (Hierarchy.chainStaticFields_of_ok hc),
    fun name => ?_, fun f hf => ?_⟩
  · have search (found : Option Field) : (s.ask (.field c name)).1 = .ok (.field found) ↔
        s.hierarchy.findField c name = .ok found :=
      hs.ask_eq_ok_iff rfl fun _ => Answer.field.inj
    refine ⟨fun f => ?_, fun f g hf hg => ?_, ?_⟩
    · rw [search, hw.findField_eq_some_iff hc]
    · have first := (hw.findField_eq_some_iff hc).mpr hf
      have second := (hw.findField_eq_some_iff hc).mpr hg
      cases first.symm.trans second
      rfl
    · rw [search, Hierarchy.findField_eq_none_iff hc]
  · have there := Hierarchy.mem_fieldsAlong_iff.mp hf
    obtain ⟨t, ht, own⟩ := there
    refine ⟨(hw.declaring_of_mem_fields own).1 ▸ ht, ?_, ?_⟩
    · rw [Hierarchy.mem_staticFieldsAlong_iff]
      exact and_iff_right ⟨t, ht, own⟩
    · rw [Hierarchy.mem_instanceFieldsAlong_iff]
      exact and_iff_right ⟨t, ht, own⟩

/-- A type with an instance field, and one below it with a static field of the same name. -/
def concealing : Scope :=
  let named (n : UInt32) : TypeId := ⟨⟨.empty⟩, ⟨n⟩⟩
  let declaring (id : TypeId) (parent : Option TypeId) (f : Field) : Declaration :=
    { Declaration.new id (.binary parent []) with members := ⟨Roster.empty.add f, .empty⟩ }
  loaded none [declaring (named 1) none (.new ⟨1⟩ .empty .empty none),
    declaring (named 2) (some (named 1)) (.new ⟨1⟩ .empty .staticFlag none)]

/-- The static field is found, though the instance field comes first in the list, and each of the two is
among the fields of its own kind. -/
theorem ask_field_foremost_concealing :
    let lower : Field := .withOwner ⟨1⟩ (.new ⟨1⟩ .empty .staticFlag none)
    let upper : Field := .withOwner ⟨0⟩ (.new ⟨1⟩ .empty .empty none)
    concealing.Reachable none ∧
      (concealing.ask (.chainFields ⟨1⟩)).1 = .ok (.fields [upper, lower]) ∧
      Foremost Field.name Field.declaring [⟨1⟩, ⟨0⟩] [upper, lower] ⟨1⟩ lower ∧
      ∃ instances statics,
        (concealing.ask (.chainInstanceFields ⟨1⟩)).1 = .ok (.fields instances) ∧
        (concealing.ask (.chainStaticFields ⟨1⟩)).1 = .ok (.fields statics) ∧
        lower ∈ statics ∧ lower ∉ instances ∧ upper ∈ instances := by
  intro lower upper
  have reachable : concealing.Reachable none := reachable_loaded none _
  have list : (concealing.ask (.chainFields ⟨1⟩)).1 = .ok (.fields [upper, lower]) := by
    decide +kernel
  have chain : (concealing.ask (.chain ⟨1⟩)).1 = .ok (.handles [⟨1⟩, ⟨0⟩]) := by decide +kernel
  have found : (concealing.ask (.field ⟨1⟩ ⟨1⟩)).1 = .ok (.field (some lower)) := by decide +kernel
  obtain ⟨types, instances, statics, chain', hi, hs, fields, kinds⟩ :=
    reachable.ask_field_foremost list
  cases chain.symm.trans chain'
  obtain ⟨-, inStatics, inInstances⟩ := kinds lower (by simp)
  obtain ⟨-, -, inInstances'⟩ := kinds upper (by simp)
  exact ⟨reachable, list, ((fields ⟨1⟩).1 lower).mp found, instances, statics, hi, hs,
    inStatics.mpr (by decide), fun hm => absurd (inInstances.mp hm) (by decide),
    inInstances'.mpr (by decide)⟩

end Scope

end Lineage
