import Lineage.Proofs.Chain
import Lineage.Proofs.Nearest
import Mathlib.Data.List.Nodup
import Mathlib.Data.List.Perm.Basic

/-!
# Unions of members

The fields and methods of a type and all its superclasses, in one list.  Such a union is formed along the
whole chain or not at all: it fails as the chain fails.  Nothing is lost in it and nothing comes twice, since
the types of a chain are all different and each member names its own type as its owner.

Main facts: `perm_fieldsAlong` and `nodup_flatMap_of_owner`; at the end all of it for the answers of a scope.
-/

namespace Lineage

/-- A row of lists has no item twice if no list has, and each item tells the list it is in. -/
theorem nodup_flatMap_of_owner {ι α : Type} {row : List ι} {part : ι → List α} {owner : α → ι}
    (distinct : row.Nodup) (each : ∀ i ∈ row, (part i).Nodup)
    (owned : ∀ i ∈ row, ∀ a ∈ part i, owner a = i) : (row.flatMap part).Nodup := by
  refine List.nodup_flatMap.mpr ⟨each, ?_⟩
  refine List.Pairwise.imp_of_mem (fun {i j} hi hj differ a hai haj => ?_) distinct
  exact differ ((owned i hi a hai).symm.trans (owned j hj a haj))

namespace Members

/-- The fields of a table are all different. -/
theorem nodup_fields (t : Members) : t.fields.Nodup := t.fieldRoster.nodup_keys.of_map

theorem nodup_methods (t : Members) : t.methods.Nodup := t.methodRoster.nodup_keys.of_map

/-- Each field is an instance field or a static one. -/
theorem perm_fields (t : Members) : (t.instanceFields ++ t.staticFields).Perm t.fields :=
  List.perm_append_comm.trans (List.filter_append_perm Field.isStatic t.fields)

end Members

namespace Hierarchy

variable {h : Hierarchy} {c p t : Handle} {types : List Handle} {nodes : List TypeNode}
  {f : Field} {m : Method}

/-! ### Without a chain -/

section Failure

variable {e : ResolveError} (hc : h.chain c = .error e)
include hc

theorem chainInstanceFields_of_error : h.chainInstanceFields c = .error e := by
  rw [chainInstanceFields, hc]
  rfl

theorem chainStaticFields_of_error : h.chainStaticFields c = .error e := by
  rw [chainStaticFields, hc]
  rfl

theorem chainFields_of_error : h.chainFields c = .error e := by
  rw [chainFields, chainInstanceFields_of_error hc]
  rfl

theorem chainMethods_of_error : h.chainMethods c = .error e := by
  rw [chainMethods, hc]
  rfl

theorem effectiveMethods_of_error : h.effectiveMethods c = .error e := by
  rw [effectiveMethods, chainMethods_of_error hc]
  rfl

end Failure

/-! ### Along a chain -/

section Success

variable (hc : h.chain c = .ok types)
include hc

theorem chainInstanceFields_of_ok : h.chainInstanceFields c = .ok (h.instanceFieldsAlong types) := by
  rw [chainInstanceFields, hc]
  rfl

theorem chainStaticFields_of_ok : h.chainStaticFields c = .ok (h.staticFieldsAlong types) := by
  rw [chainStaticFields, hc]
  rfl

theorem chainFields_of_ok :
    h.chainFields c = .ok (h.instanceFieldsAlong types ++ h.staticFieldsAlong types) := by
  rw [chainFields, chainInstanceFields_of_ok hc, chainStaticFields_of_ok hc]
  rfl

theorem chainMethods_of_ok : h.chainMethods c = .ok (h.methodsAlong types) := by
  rw [chainMethods, hc]
  rfl

/-- The types of a chain are there. -/
theorem exists_nodes_of_chain : ∃ nodes : List TypeNode, types.map h.node? = nodes.map some := by
  have there (t : Handle) (ht : t ∈ types) : ∃ node, h.node? t = some node :=
    (climb_of_chain_eq_ok hc).exists_node? t ht
  clear hc
  induction types with
  | nil => exact ⟨[], rfl⟩
  | cons t types ih =>
    obtain ⟨node, hnode⟩ := there t List.mem_cons_self
    obtain ⟨nodes, hnodes⟩ := ih fun u hu => there u (List.mem_cons_of_mem t hu)
    exact ⟨node :: nodes, by rw [List.map_cons, List.map_cons, hnode, hnodes]⟩

end Success

/-- What the types of a chain declare, read off the types themselves. -/
theorem flatMap_ownMembers_eq {α : Type} (part : Members → List α)
    (hn : types.map h.node? = nodes.map some) :
    (types.flatMap fun t => part (h.ownMembers t)) = nodes.flatMap fun n => part n.members := by
  induction types generalizing nodes with
  | nil =>
    obtain rfl := List.map_eq_nil_iff.mp hn.symm
    rfl
  | cons t types ih =>
    obtain ⟨node, rest, rfl, hnode, hrest⟩ := List.map_eq_cons_iff.mp hn.symm
    rw [List.flatMap_cons, List.flatMap_cons, ownMembers_of_some hnode.symm, ih hrest.symm]

/-- The instance fields and the static fields along a chain are all the fields there are. -/
theorem perm_fieldsAlong (h : Hierarchy) (types : List Handle) :
    (h.instanceFieldsAlong types ++ h.staticFieldsAlong types).Perm
      (types.flatMap fun t => (h.ownMembers t).fields) :=
  (List.flatMap_append_perm types _ _).trans
    (List.Perm.flatMap_left types fun t _ => (h.ownMembers t).perm_fields)

namespace WellFormed

variable (hw : h.WellFormed)
include hw

/-- **No field comes twice along a chain**, however often its name does. -/
theorem nodup_fieldsAlong (distinct : types.Nodup) :
    (h.instanceFieldsAlong types ++ h.staticFieldsAlong types).Nodup := by
  rw [(h.perm_fieldsAlong types).nodup_iff]
  exact nodup_flatMap_of_owner distinct (fun t _ => (h.ownMembers t).nodup_fields)
    fun _ _ _ hf => (hw.declaring_of_mem_fields hf).1

theorem nodup_methodsAlong (distinct : types.Nodup) : (h.methodsAlong types).Nodup :=
  nodup_flatMap_of_owner distinct (fun t _ => (h.ownMembers t).nodup_methods)
    fun _ _ _ hm => (hw.declaring_of_mem_methods hm).1

/-- **One step up**: what is collected along the chain of a type is what the type declares and then what
is collected along the chain of its superclass. -/
theorem union_eq_ok_iff_of_superclass {α : Type} (part : Members → List α) {xs : List α}
    (up : h.superclass c = .ok (some p)) :
    (h.chain c).map (·.flatMap fun t => part (h.ownMembers t)) = .ok xs ↔
      ∃ ys, (h.chain p).map (·.flatMap fun t => part (h.ownMembers t)) = .ok ys ∧
        xs = part (h.ownMembers c) ++ ys := by
  simp only [map_eq_ok_iff]
  constructor
  · rintro ⟨types, e, rfl⟩
    obtain ⟨rest, rfl, above⟩ := chain_of_superclass up e
    exact ⟨_, ⟨rest, above, rfl⟩, List.flatMap_cons⟩
  · rintro ⟨ys, ⟨rest, above, rfl⟩, rfl⟩
    exact ⟨c :: rest, (hw.chain_cons_iff up).mpr above, List.flatMap_cons⟩

end WellFormed

end Hierarchy

namespace Scope

variable {root : Option TypeId} {s : Scope}

/-- **The unions along a chain are complete or there is none.**  They fail as the chain does; otherwise they list
what each of its types declares, from the type upwards and without repetition, all fields as the instance
fields and then the static ones. -/
theorem Reachable.ask_unions (hs : s.Reachable root) (c : Handle) :
    (∀ e, (s.ask (.chain c)).1 = .error e →
        (s.ask (.chainInstanceFields c)).1 = .error e ∧
        (s.ask (.chainStaticFields c)).1 = .error e ∧
        (s.ask (.chainFields c)).1 = .error e ∧
        (s.ask (.chainMethods c)).1 = .error e ∧
        (s.ask (.effectiveMethods c)).1 = .error e) ∧
      (∀ types, (s.ask (.chain c)).1 = .ok (.handles types) →
        ∃ (nodes : List TypeNode) (fs gs : List Field) (ms : List Method),
          types.map s.hierarchy.node? = nodes.map some ∧
          fs = nodes.flatMap (·.members.fields.filter Field.isInstance) ∧
          gs = nodes.flatMap (·.members.fields.filter Field.isStatic) ∧
          ms = nodes.flatMap (·.members.methods) ∧
          (s.ask (.chainInstanceFields c)).1 = .ok (.fields fs) ∧
          (s.ask (.chainStaticFields c)).1 = .ok (.fields gs) ∧
          (s.ask (.chainFields c)).1 = .ok (.fields (fs ++ gs)) ∧
          (s.ask (.chainMethods c)).1 = .ok (.methods ms) ∧
          (fs ++ gs).Perm (nodes.flatMap (·.members.fields)) ∧
          fs.Nodup ∧ gs.Nodup ∧ (fs ++ gs).Nodup ∧ ms.Nodup) ∧
      ∀ p, (s.ask (.superclass c)).1 = .ok (.handle (some p)) →
        ∃ node, s.hierarchy.node? c = some node ∧
          (∀ fs, (s.ask (.chainInstanceFields c)).1 = .ok (.fields fs) ↔
            ∃ fs', (s.ask (.chainInstanceFields p)).1 = .ok (.fields fs') ∧
              fs = node.members.fields.filter Field.isInstance ++ fs') ∧
          (∀ gs, (s.ask (.chainStaticFields c)).1 = .ok (.fields gs) ↔
            ∃ gs', (s.ask (.chainStaticFields p)).1 = .ok (.fields gs') ∧
              gs = node.members.fields.filter Field.isStatic ++ gs') ∧
          ∀ ms, (s.ask (.chainMethods c)).1 = .ok (.methods ms) ↔
            ∃ ms', (s.ask (.chainMethods p)).1 = .ok (.methods ms') ∧
              ms = node.members.methods ++ ms' := by
  have hw := hs.hierarchy.wellFormed
  have instances (t : Handle) (fs : List Field) :
      (s.ask (.chainInstanceFields t)).1 = .ok (.fields fs) ↔
        s.hierarchy.chainInstanceFields t = .ok fs :=
    hs.ask_eq_ok_iff rfl fun _ => Answer.fields.inj
  have statics (t : Handle) (gs : List Field) :
      (s.ask (.chainStaticFields t)).1 = .ok (.fields gs) ↔
        s.hierarchy.chainStaticFields t = .ok gs :=
    hs.ask_eq_ok_iff rfl fun _ => Answer.fields.inj
  have methods (t : Handle) (ms : List Method) :
      (s.ask (.chainMethods t)).1 = .ok (.methods ms) ↔ s.hierarchy.chainMethods t = .ok ms :=
    hs.ask_eq_ok_iff rfl fun _ => Answer.methods.inj
  refine ⟨fun e failed => ?_, fun types complete => ?_, fun p up => ?_⟩
  · have hc : s.hierarchy.chain c = .error e := (hs.ask_eq_error_iff rfl).mp failed
    exact ⟨(hs.ask_eq_error_iff rfl).mpr (Hierarchy.chainInstanceFields_of_error hc),
      (hs.ask_eq_error_iff rfl).mpr (Hierarchy.chainStaticFields_of_error hc),
      (hs.ask_eq_error_iff rfl).mpr (Hierarchy.chainFields_of_error hc),
      (hs.ask_eq_error_iff rfl).mpr (Hierarchy.chainMethods_of_error hc),
      (hs.ask_eq_error_iff rfl).mpr (Hierarchy.effectiveMethods_of_error hc)⟩
  · have hc : s.hierarchy.chain c = .ok types :=
      (hs.ask_eq_ok_iff rfl fun _ => Answer.handles.inj).mp complete
    obtain ⟨nodes, hn⟩ := Hierarchy.exists_nodes_of_chain hc
    have distinct := (Hierarchy.climb_of_chain_eq_ok hc).nodup
    have nodup := hw.nodup_fieldsAlong distinct
    have all := s.hierarchy.perm_fieldsAlong types
    rw [Hierarchy.flatMap_ownMembers_eq Members.fields hn] at all
    exact ⟨nodes, _, _, _, hn, Hierarchy.flatMap_ownMembers_eq Members.instanceFields hn,
      Hierarchy.flatMap_ownMembers_eq Members.staticFields hn,
      Hierarchy.flatMap_ownMembers_eq Members.methods hn,
      (instances c _).mpr (Hierarchy.chainInstanceFields_of_ok hc),
      (statics c _).mpr (Hierarchy.chainStaticFields_of_ok hc),
      (hs.ask_eq_ok_iff rfl fun _ => Answer.fields.inj).mpr (Hierarchy.chainFields_of_ok hc),
      (methods c _).mpr (Hierarchy.chainMethods_of_ok hc), all,
      nodup.of_append_left, nodup.of_append_right, nodup, hw.nodup_methodsAlong distinct⟩
  · have up : s.hierarchy.superclass c = .ok (some p) :=
      (hs.ask_eq_ok_iff rfl fun _ => Answer.handle.inj).mp up
    obtain ⟨node, hnode⟩ := Hierarchy.node?_of_superclass_ok up
    refine ⟨node, hnode, fun fs => ?_, fun gs => ?_, fun ms => ?_⟩
    · simp only [instances, ← Hierarchy.ownMembers_of_some hnode]
      exact hw.union_eq_ok_iff_of_superclass Members.instanceFields up
    · simp only [statics, ← Hierarchy.ownMembers_of_some hnode]
      exact hw.union_eq_ok_iff_of_superclass Members.staticFields up
    · simp only [methods, ← Hierarchy.ownMembers_of_some hnode]
      exact hw.union_eq_ok_iff_of_superclass Members.methods up

/-- A type that declares a static field and an instance field, one below it with a field of the same name
and descriptor, and a third whose superclass is missing. -/
def redeclaring : Scope :=
  let named (n : UInt32) : TypeId := ⟨⟨.empty⟩, ⟨n⟩⟩
  let shared : Field := .new ⟨1⟩ .empty .staticFlag none
  let own : Field := .new ⟨2⟩ .empty .empty none
  loaded none [{ Declaration.new (named 1) (.binary none []) with
      members := ⟨Roster.empty.add shared |>.add own, .empty⟩ },
    { Declaration.new (named 2) (.binary (some (named 1)) []) with
      members := ⟨Roster.empty.add own |>.add shared, .empty⟩ },
    .new (named 3) (.binary (some (named 4)) [])]

/-- The fields that look alike are both listed; the union for the third type fails like its chain. -/
theorem ask_unions_redeclaring :
    redeclaring.Reachable none ∧
      (∃ fs, (redeclaring.ask (.chainFields ⟨1⟩)).1 = .ok (.fields fs) ∧
        fs.map Field.name = [⟨2⟩, ⟨2⟩, ⟨1⟩, ⟨1⟩] ∧ fs.Nodup) ∧
      (redeclaring.ask (.effectiveMethods ⟨2⟩)).1 =
        .error (.missingSuperclass ⟨2⟩ ⟨⟨.empty⟩, ⟨4⟩⟩) := by
  have reachable : redeclaring.Reachable none := reachable_loaded none _
  have chain : (redeclaring.ask (.chain ⟨1⟩)).1 = .ok (.handles [⟨1⟩, ⟨0⟩]) := by decide +kernel
  have failed : (redeclaring.ask (.chain ⟨2⟩)).1 =
      .error (.missingSuperclass ⟨2⟩ ⟨⟨.empty⟩, ⟨4⟩⟩) := by
    decide +kernel
  have names : ((redeclaring.ask (.chainFields ⟨1⟩)).1.map fun
      | .fields fs => fs.map Field.name
      | _ => []) = .ok [⟨2⟩, ⟨2⟩, ⟨1⟩, ⟨1⟩] := by
    decide +kernel
  obtain ⟨-, complete, -⟩ := reachable.ask_unions ⟨1⟩
  obtain ⟨fails, -, -⟩ := reachable.ask_unions ⟨2⟩
  obtain ⟨-, fs, gs, -, -, -, -, -, -, -, fields, -, -, -, -, nodup, -⟩ := complete _ chain
  rw [fields] at names
  exact ⟨reachable, ⟨fs ++ gs, fields, Except.ok.inj names, nodup⟩, (fails _ failed).2.2.2.2⟩

end Scope

end Lineage
