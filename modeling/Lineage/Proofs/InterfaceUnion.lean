import Lineage.Proofs.FirstMention
import Lineage.Proofs.Level

/-!
# Interfaces along a chain

The interfaces of a type and its superclasses, nearest first.  Each type of the chain leaves out its own
repetitions, and then the whole list does; the result is the same if only the whole list does
(`eraseDups_flatMap`).  A chain that is not complete comes before all else; along a complete chain the first
name behind which there is no type decides, and if there is none, the interfaces of a type are its own and
then those of its superclass that are new.

Main facts: `interfaces_of_present` and `interfaces_of_missing` for one type, `chainInterfaces_of_present`,
`chainInterfaces_of_missing` and `chainInterfaces_of_superclass` along a chain; at the end the answers of a
scope.
-/

namespace Lineage

/-- Repetitions need not be left out of the parts if they are left out of the whole. -/
theorem eraseDups_flatMap {ι α : Type} [DecidableEq α] (part : ι → List α) (row : List ι) :
    (row.flatMap fun i => (part i).eraseDups).eraseDups = (row.flatMap part).eraseDups := by
  induction row with
  | nil => rfl
  | cons i row ih =>
    rw [List.flatMap_cons, List.flatMap_cons, eraseDups_append, eraseDups_append, ih,
      eraseDups_of_nodup (nodup_eraseDups _)]

/-- The interfaces of an ancestry, as often as it mentions them: those that it records, or those that
`find` finds under the names it gives. -/
def Ancestry.interfaces (find : TypeId → Option Handle) : Ancestry → List Handle
  | .source _ names | .binary _ names => names.filterMap find
  | .synthetic _ interfaces => interfaces

namespace Hierarchy

variable {h : Hierarchy} {c p t : Handle} {types : List Handle} {node : TypeNode} {a : Ancestry}
  {id : TypeId} {names earlier later : List TypeId}

/-! ### The interfaces of one type -/

/-- The names of the interfaces that a type declares. -/
def interfaceNames (h : Hierarchy) (t : Handle) : List TypeId :=
  (h.node? t).elim [] fun node => node.ancestry.interfaceNames

/-- The interfaces that a type declares, as often as it declares them. -/
def declaredInterfaces (h : Hierarchy) (t : Handle) : List Handle :=
  (h.node? t).elim [] fun node => node.ancestry.interfaces h.find?

/-- There is a type behind each name of an interface that `t` declares. -/
def InterfacesPresent (h : Hierarchy) (t : Handle) : Prop :=
  ∀ id ∈ h.interfaceNames t, h.find? id ≠ none

theorem mapM_namedInterface_of_present (all : ∀ id ∈ names, h.find? id ≠ none) :
    names.mapM (h.namedInterface t) = .ok (names.filterMap h.find?) := by
  induction names with
  | nil => rfl
  | cons id names ih =>
    obtain ⟨i, hi⟩ := Option.ne_none_iff_exists'.mp (all id List.mem_cons_self)
    rw [List.mapM_cons, namedInterface_eq, hi, ih fun id hid => all id (List.mem_cons_of_mem _ hid),
      List.filterMap_cons_some hi]
    rfl

theorem mapM_namedInterface_of_missing (found : ∀ id ∈ earlier, h.find? id ≠ none)
    (absent : h.find? id = none) :
    (earlier ++ id :: later).mapM (h.namedInterface t) = .error (.missingInterface t id) := by
  refine mapM_eq_error_of_first (fun id hid => ?_) ?_
  · obtain ⟨i, hi⟩ := Option.ne_none_iff_exists'.mp (found id hid)
    exact ⟨i, by rw [namedInterface_eq, hi]; rfl⟩
  · rw [namedInterface_eq, absent]
    rfl

theorem namedInterfaces_of_present (all : ∀ id ∈ a.interfaceNames, h.find? id ≠ none) :
    h.namedInterfaces t a = .ok (a.interfaces h.find?) := by
  cases a with
  | source superclass names => exact mapM_namedInterface_of_present all
  | binary superclass names => exact mapM_namedInterface_of_present all
  | synthetic superclass interfaces => rfl

theorem namedInterfaces_of_missing (split : a.interfaceNames = earlier ++ id :: later)
    (found : ∀ id ∈ earlier, h.find? id ≠ none) (absent : h.find? id = none) :
    h.namedInterfaces t a = .error (.missingInterface t id) := by
  have fails : a.interfaceNames.mapM (h.namedInterface t) = .error (.missingInterface t id) := by
    rw [split]
    exact mapM_namedInterface_of_missing found absent
  cases a with
  | source superclass names => exact fails
  | binary superclass names => exact fails
  | synthetic superclass interfaces => simp [Ancestry.interfaceNames] at split

/-- If no name is missing, the interfaces of a type are the first mentions in what it declares. -/
theorem interfaces_of_present (there : h.node? t = some node) (all : h.InterfacesPresent t) :
    h.interfaces t = .ok (h.declaredInterfaces t).eraseDups := by
  rw [InterfacesPresent, interfaceNames, there] at all
  rw [interfaces_of_some there, namedInterfaces_of_present all, declaredInterfaces, there]
  rfl

/-- Otherwise the first name behind which there is no type is the one that is reported. -/
theorem interfaces_of_missing (split : h.interfaceNames t = earlier ++ id :: later)
    (found : ∀ id ∈ earlier, h.find? id ≠ none) (absent : h.find? id = none) :
    h.interfaces t = .error (.missingInterface t id) := by
  cases there : h.node? t with
  | none => simp [interfaceNames, there] at split
  | some node =>
    rw [interfaceNames, there] at split
    rw [interfaces_of_some there, namedInterfaces_of_missing split found absent]
    rfl

/-! ### Along a chain -/

/-- Without a chain there are no interfaces, whatever the types of it declare. -/
theorem chainInterfaces_of_error {e : ResolveError} (hc : h.chain c = .error e) :
    h.chainInterfaces c = .error e := by
  rw [chainInterfaces, hc]
  rfl

section Chain

variable (hc : h.chain c = .ok types)
include hc

theorem interfaces_of_mem_chain (ht : t ∈ types) (all : h.InterfacesPresent t) :
    h.interfaces t = .ok (h.declaredInterfaces t).eraseDups := by
  obtain ⟨node, there⟩ := (climb_of_chain_eq_ok hc).exists_node? t ht
  exact interfaces_of_present there all

/-- If no name is missing, the interfaces of a chain are the first mentions in all that its types
declare. -/
theorem chainInterfaces_of_present (all : ∀ t ∈ types, h.InterfacesPresent t) :
    h.chainInterfaces c = .ok (types.flatMap h.declaredInterfaces).eraseDups := by
  have each : types.mapM h.interfaces = .ok (types.map fun t => (h.declaredInterfaces t).eraseDups) :=
    mapM_eq_ok_of_forall fun t ht => interfaces_of_mem_chain hc ht (all t ht)
  rw [← eraseDups_flatMap, List.flatMap_def]
  exact bind_eq_ok_iff.mpr ⟨types, hc, bind_eq_ok_iff.mpr ⟨_, each, rfl⟩⟩

/-- Otherwise the first missing name of the first type that names one is reported. -/
theorem chainInterfaces_of_missing (some : ¬ ∀ t ∈ types, h.InterfacesPresent t) :
    ∃ before t after earlier id later, types = before ++ t :: after ∧
      (∀ u ∈ before, h.InterfacesPresent u) ∧ h.interfaceNames t = earlier ++ id :: later ∧
      (∀ id' ∈ earlier, h.find? id' ≠ none) ∧ h.find? id = none ∧
      h.chainInterfaces c = .error (.missingInterface t id) := by
  obtain ⟨before, t, after, split, good, bad⟩ := exists_first_not some
  obtain ⟨earlier, id, later, names, found, absent⟩ := exists_first_not bad
  have absent : h.find? id = none := not_not.mp absent
  refine ⟨before, t, after, earlier, id, later, split, good, names, found, absent, ?_⟩
  have fails : types.mapM h.interfaces = .error (.missingInterface t id) := by
    rw [split]
    refine mapM_eq_error_of_first (fun u hu => ⟨_, interfaces_of_mem_chain hc ?_ (good u hu)⟩)
      (interfaces_of_missing names found absent)
    exact split ▸ List.mem_append_left _ hu
  exact bind_eq_error_iff.mpr (.inr ⟨types, hc, bind_eq_error_iff.mpr (.inl fails)⟩)

/-- The interfaces of a chain begin with those of the type itself, and then come those of the rest of the
chain that are new. -/
theorem exists_rest_interfaces (all : ∀ t ∈ types, h.InterfacesPresent t) :
    ∃ own rest, types = c :: rest ∧ h.interfaces c = .ok own ∧
      (types.flatMap h.declaredInterfaces).eraseDups =
        own ++ (rest.flatMap h.declaredInterfaces).eraseDups.filter (· ∉ own) := by
  obtain ⟨rest, rfl⟩ : ∃ rest, types = c :: rest := by
    cases climb_of_chain_eq_ok hc with
    | root new root => exact ⟨[], rfl⟩
    | up new up rest => exact ⟨_, rfl⟩
  have own := interfaces_of_mem_chain hc List.mem_cons_self (all c List.mem_cons_self)
  exact ⟨_, rest, rfl, own, by rw [List.flatMap_cons, eraseDups_append]⟩

end Chain

/-- **One step up**: the rest of the chain has the interfaces of the superclass. -/
theorem chainInterfaces_of_superclass {rest : List Handle} (hc : h.chain c = .ok (c :: rest))
    (all : ∀ t ∈ c :: rest, h.InterfacesPresent t) (up : h.superclass c = .ok (some p)) :
    h.chainInterfaces p = .ok (rest.flatMap h.declaredInterfaces).eraseDups := by
  obtain ⟨rest', same, above⟩ := chain_of_superclass up hc
  cases same
  exact chainInterfaces_of_present above fun t ht => all t (List.mem_cons_of_mem c ht)

end Hierarchy

namespace Scope

variable {root : Option TypeId} {s : Scope}

/-- **The interfaces of a type and its superclasses, nearest first.**  They fail as the chain does, or over the
first missing name in the order of the chain.  Otherwise they are the first mentions in what the types of the
chain declare, so those of the superclass follow the direct ones. -/
theorem Reachable.ask_interfaces_along (hs : s.Reachable root) (c : Handle) :
    (∀ e, (s.ask (.chain c)).1 = .error e → (s.ask (.chainInterfaces c)).1 = .error e) ∧
      ∀ types, (s.ask (.chain c)).1 = .ok (.handles types) →
        ((∃ t ∈ types, ∃ id ∈ s.hierarchy.interfaceNames t, s.hierarchy.find? id = none) →
          ∃ before t after earlier id later, types = before ++ t :: after ∧
            (∀ u ∈ before, ∀ id' ∈ s.hierarchy.interfaceNames u, s.hierarchy.find? id' ≠ none) ∧
            s.hierarchy.interfaceNames t = earlier ++ id :: later ∧
            (∀ id' ∈ earlier, s.hierarchy.find? id' ≠ none) ∧ s.hierarchy.find? id = none ∧
            (s.ask (.chainInterfaces c)).1 = .error (.missingInterface t id)) ∧
        ((∀ t ∈ types, ∀ id ∈ s.hierarchy.interfaceNames t, s.hierarchy.find? id ≠ none) →
          ∃ is own, (s.ask (.chainInterfaces c)).1 = .ok (.handles is) ∧
            is = (types.flatMap s.hierarchy.declaredInterfaces).eraseDups ∧ is.Nodup ∧
            (s.ask (.interfaces c)).1 = .ok (.handles own) ∧ own <+: is ∧
            ∀ p, (s.ask (.superclass c)).1 = .ok (.handle (some p)) →
              ∃ inherited, (s.ask (.chainInterfaces p)).1 = .ok (.handles inherited) ∧
                is = own ++ inherited.filter (· ∉ own)) := by
  have interfaces (t : Handle) (is : List Handle) :
      (s.ask (.chainInterfaces t)).1 = .ok (.handles is) ↔ s.hierarchy.chainInterfaces t = .ok is :=
    hs.ask_eq_ok_iff rfl fun _ => Answer.handles.inj
  have fails (e : ResolveError) :
      (s.ask (.chainInterfaces c)).1 = .error e ↔ s.hierarchy.chainInterfaces c = .error e :=
    hs.ask_eq_error_iff rfl
  refine ⟨fun e failed => ?_, fun types complete => ⟨fun ⟨t, ht, id, hid, absent⟩ => ?_, fun all => ?_⟩⟩
  · exact (fails e).mpr (Hierarchy.chainInterfaces_of_error ((hs.ask_eq_error_iff rfl).mp failed))
  · have hc : s.hierarchy.chain c = .ok types :=
      (hs.ask_eq_ok_iff rfl fun _ => Answer.handles.inj).mp complete
    have some : ¬ ∀ t ∈ types, s.hierarchy.InterfacesPresent t := fun all => all t ht id hid absent
    simp only [fails]
    exact Hierarchy.chainInterfaces_of_missing hc some
  · have hc : s.hierarchy.chain c = .ok types :=
      (hs.ask_eq_ok_iff rfl fun _ => Answer.handles.inj).mp complete
    obtain ⟨own, rest, rfl, direct, split⟩ := Hierarchy.exists_rest_interfaces hc all
    refine ⟨_, own, (interfaces c _).mpr (Hierarchy.chainInterfaces_of_present hc all), rfl,
      nodup_eraseDups _, (hs.ask_eq_ok_iff rfl fun _ => Answer.handles.inj).mpr direct, ?_, ?_⟩
    · rw [split]
      exact List.prefix_append own _
    · intro p up
      have up : s.hierarchy.superclass c = .ok (some p) :=
        (hs.ask_eq_ok_iff rfl fun _ => Answer.handle.inj).mp up
      exact ⟨_, (interfaces p _).mpr (Hierarchy.chainInterfaces_of_superclass hc all up), split⟩

/-- Two interfaces; a type that names both, one of them twice; one below it that names an interface again;
one below that with two names behind which there is nothing; and one whose superclass and interface are
both missing. -/
def repeating : Scope :=
  let named (n : UInt32) : TypeId := ⟨⟨.empty⟩, ⟨n⟩⟩
  loaded none [.new (named 1) (.binary none []), .new (named 2) (.binary none []),
    .new (named 3) (.binary none [named 2, named 1, named 2]),
    .new (named 4) (.binary (some (named 3)) [named 1]),
    .new (named 5) (.binary (some (named 4)) [named 2, named 8, named 7]),
    .new (named 6) (.binary (some (named 9)) [named 7])]

/-- The interface that is named again moves to the front; of the two missing interfaces the first is
reported; a missing superclass is reported before a missing interface. -/
theorem ask_interfaces_along_repeating :
    let missing (n : UInt32) : TypeId := ⟨⟨.empty⟩, ⟨n⟩⟩
    repeating.Reachable none ∧
      (∃ own inherited, (repeating.ask (.interfaces ⟨3⟩)).1 = .ok (.handles own) ∧
        (repeating.ask (.chainInterfaces ⟨2⟩)).1 = .ok (.handles inherited) ∧
        own ++ inherited.filter (· ∉ own) = [⟨0⟩, ⟨1⟩]) ∧
      (∃ t id, (repeating.ask (.chainInterfaces ⟨4⟩)).1 = .error (.missingInterface t id) ∧
        ∃ earlier later, repeating.hierarchy.interfaceNames t = earlier ++ id :: later ∧
          ∀ id' ∈ earlier, repeating.hierarchy.find? id' ≠ none) ∧
      (repeating.ask (.interfaces ⟨5⟩)).1 = .error (.missingInterface ⟨5⟩ (missing 7)) ∧
      (repeating.ask (.chainInterfaces ⟨5⟩)).1 = .error (.missingSuperclass ⟨5⟩ (missing 9)) := by
  intro missing
  have reachable : repeating.Reachable none := reachable_loaded none _
  have failed : (repeating.ask (.chain ⟨5⟩)).1 = .error (.missingSuperclass ⟨5⟩ (missing 9)) := by
    decide +kernel
  have partly : (repeating.ask (.chain ⟨4⟩)).1 = .ok (.handles [⟨4⟩, ⟨3⟩, ⟨2⟩]) := by decide +kernel
  have complete : (repeating.ask (.chain ⟨3⟩)).1 = .ok (.handles [⟨3⟩, ⟨2⟩]) := by decide +kernel
  have present : ∀ t ∈ [(⟨3⟩ : Handle), ⟨2⟩], ∀ id ∈ repeating.hierarchy.interfaceNames t,
      repeating.hierarchy.find? id ≠ none := by
    decide +kernel
  have absent : ∃ t ∈ [(⟨4⟩ : Handle), ⟨3⟩, ⟨2⟩], ∃ id ∈ repeating.hierarchy.interfaceNames t,
      repeating.hierarchy.find? id = none := by
    decide +kernel
  have up : (repeating.ask (.superclass ⟨3⟩)).1 = .ok (.handle (some ⟨2⟩)) := by decide +kernel
  have found : (repeating.ask (.chainInterfaces ⟨3⟩)).1 = .ok (.handles [⟨0⟩, ⟨1⟩]) := by decide +kernel
  obtain ⟨is, own, list, -, -, direct, -, above⟩ :=
    ((reachable.ask_interfaces_along ⟨3⟩).2 _ complete).2 present
  obtain ⟨inherited, list', split⟩ := above _ up
  cases found.symm.trans list
  obtain ⟨_, t, _, earlier, id, later, -, -, names, before, -, fails⟩ :=
    ((reachable.ask_interfaces_along ⟨4⟩).2 _ partly).1 absent
  exact ⟨reachable, ⟨own, inherited, direct, list', split.symm⟩,
    ⟨t, id, fails, earlier, later, names, before⟩, by decide +kernel,
    (reachable.ask_interfaces_along ⟨5⟩).1 _ failed⟩

end Scope

end Lineage
