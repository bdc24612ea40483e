import Lineage.Proofs.Defect
import Lineage.Proofs.Override

/-!
# Lookups

A lookup goes along the types that a walk meets and stops at the first one that declares what is asked
for.  So it is settled by these types and by the end of the walk: a failure further up stays hidden
behind a declaration, and nothing is reported to be absent before the walk came to a root.  Fields and
methods are looked up in one way (`lookUp`), by the roster of a type that has them.

Main facts: `Climb.lookUp_eq` (a lookup read off the walk) and `Climb.nearest_answers` (what it means for an answer);
at the end the answers of a scope.
-/

namespace Lineage

namespace Hierarchy

/-- The fields that a type declares, with their index. -/
def fieldsOf (h : Hierarchy) (t : Handle) : Roster Field.name :=
  (h.ownMembers t).fieldRoster

section LookUp

variable {κ α : Type} [Ord κ] [Std.TransOrd κ] {key : α → κ} {h : Hierarchy} {c t : Handle}
  {types : List Handle} {ending : Option ResolveError} {e : ResolveError} {k : κ}

/-- The nearest declaration of a key, from a type upwards. -/
def lookUp (h : Hierarchy) (declared : Handle → Roster key) (c : Handle) (k : κ) :
    Except ResolveError (Option α) :=
  (Ascent.start c).search h fun t => (declared t).find? k

theorem findField_eq_lookUp (h : Hierarchy) (c : Handle) (name : Symbol) :
    h.findField c name = h.lookUp h.fieldsOf c name := rfl

namespace Climb

variable (declared : Handle → Roster key)

theorem lookUp_eq (hc : h.Climb [] c types ending) (k : κ) :
    h.lookUp declared c k =
      (types.findSome? fun t => (declared t).find? k).elim (ending.elim (.ok none) .error)
        fun found => .ok (some found) :=
  hc.search_eq _

/-- **A declaration is found**, if there is one at a type that the walk meets: the one of the first such
type, whatever the end of the walk. -/
theorem exists_nearest (hc : h.Climb [] c types ending) (ht : t ∈ types)
    (there : (declared t).contains k = true) :
    ∃ u a, Nearest declared types k u a ∧ h.lookUp declared c k = .ok (some a) := by
  rw [Roster.contains_eq_isSome_find?] at there
  have found : (types.findSome? fun t => (declared t).find? k).isSome :=
    List.findSome?_isSome_iff.mpr ⟨t, ht, there⟩
  obtain ⟨a, ha⟩ := Option.isSome_iff_exists.mp found
  obtain ⟨u, near⟩ := findSome?_eq_some_iff_nearest.mp ha
  exact ⟨u, a, near, by rw [hc.lookUp_eq, ha]; rfl⟩

/-- Without one, the end of the walk is the end of the lookup. -/
theorem lookUp_of_undeclared (hc : h.Climb [] c types ending)
    (nowhere : ∀ t ∈ types, (declared t).contains k = false) :
    h.lookUp declared c k = ending.elim (.ok none) .error := by
  have none : (types.findSome? fun t => (declared t).find? k) = none := by
    refine List.findSome?_eq_none_iff.mpr fun t ht => ?_
    have := nowhere t ht
    rwa [Roster.contains_eq_isSome_find?, Option.isSome_eq_false_iff, Option.isNone_iff_eq_none] at this
  rw [hc.lookUp_eq, none]
  rfl

/-- Nothing is found only on a complete chain, none of whose types has a declaration. -/
theorem of_lookUp_none (hc : h.Climb [] c types ending) (e : h.lookUp declared c k = .ok none) :
    ending = none ∧ ∀ t ∈ types, (declared t).contains k = false := by
  have nowhere : ∀ t ∈ types, (declared t).contains k = false := by
    intro t ht
    cases there : (declared t).contains k with
    | false => rfl
    | true =>
      obtain ⟨-, a, -, found⟩ := hc.exists_nearest declared ht there
      cases e.symm.trans found
  refine ⟨?_, nowhere⟩
  rw [hc.lookUp_of_undeclared declared nowhere] at e
  cases ending with
  | none => rfl
  | some err => cases e

/-- **The nearest declaration answers**, for questions that are answered by lookups. -/
theorem nearest_answers {β : Type} {answer : Except ResolveError β} {wrap : Option α → β}
    (hc : h.Climb [] c types ending) (inj : ∀ found found', wrap found = wrap found' → found = found')
    (asks : answer = (h.lookUp declared c k).map wrap) :
    ((∃ t ∈ types, (declared t).contains k = true) →
        ∃ t a, Nearest declared types k t a ∧ answer = .ok (wrap (some a))) ∧
      ((∀ t ∈ types, (declared t).contains k = false) →
        answer = ending.elim (.ok (wrap none)) .error) ∧
      (answer = .ok (wrap none) → ending = none ∧ ∀ t ∈ types, (declared t).contains k = false) := by
  refine ⟨fun ⟨t, ht, there⟩ => ?_, fun nowhere => ?_, fun nothing => ?_⟩
  · obtain ⟨u, a, near, found⟩ := hc.exists_nearest declared ht there
    exact ⟨u, a, near, by rw [asks, found]; rfl⟩
  · rw [asks, hc.lookUp_of_undeclared declared nowhere]
    cases ending <;> rfl
  · obtain ⟨found, e, same⟩ := map_eq_ok_iff.mp (asks.symm.trans nothing)
    obtain rfl := inj _ _ same
    exact hc.of_lookUp_none declared e

/-- A walk that does not fail ends at a root. -/
theorem getLast?_of_root (hc : h.Climb [] c types none) :
    ∃ t, types.getLast? = some t ∧ h.superclass t = .ok none := by
  obtain ⟨n, t, hn, hat, root⟩ := hc.endsAt
  refine ⟨t, ?_, root⟩
  rw [List.getLast?_eq_getElem?, hn, Nat.add_sub_cancel, hc.getElem?_eq (by omega), hat]

/-- The failures that a walk can end with. -/
theorem ending_cases (hw : h.WellFormed) (hc : h.Climb [] c types (some e)) :
    (∃ t id, e = .missingSuperclass t id) ∨ (∃ t, e = .cycle t) ∨ e = .unknownType c := by
  cases e with
  | missingSuperclass t id => exact .inl ⟨t, id, rfl⟩
  | missingInterface t id => exact absurd rfl (hc.ne_missingInterface t id)
  | cycle t => exact .inr (.inl ⟨t, rfl⟩)
  | unknownType u =>
    have failed : h.answer (.chain c) = .error (.unknownType u) := by
      rw [answer, chain_eq hc]
      rfl
    rw [hw.eq_subject_of_unknownType failed]
    exact .inr (.inr rfl)

end Climb

end LookUp

end Hierarchy

namespace Scope

variable {root : Option TypeId} {s : Scope}

/-- **A lookup gives the nearest declaration among the types that a walk meets**, even if the walk fails further
up.  If none of them has one, the lookup ends as the walk does, so nothing is found only on a complete chain. -/
theorem Reachable.ask_nearest (hs : s.Reachable root) (c : Handle) :
    ∃ (types : List Handle) (ending : Option ResolveError),
      (∀ n, (Ascent.start c).take s.hierarchy (types.length + 1 + n) =
        types.map (some <| .ok ·) ++ ending.map .error :: List.replicate n none) ∧
      (∀ e, ending = some e →
        (∃ t id, e = .missingSuperclass t id) ∨ (∃ t, e = .cycle t) ∨ e = .unknownType c) ∧
      (ending = none →
        ∃ t, types.getLast? = some t ∧ (s.ask (.superclass t)).1 = .ok (.handle none)) ∧
      (∀ name,
        ((∃ t ∈ types, (s.hierarchy.ownMembers t).hasField name = true) →
          ∃ t f, Nearest s.hierarchy.fieldsOf types name t f ∧ f.declaring = t ∧
            (s.ask (.field c name)).1 = .ok (.field (some f))) ∧
        ((∀ t ∈ types, (s.hierarchy.ownMembers t).hasField name = false) →
          (s.ask (.field c name)).1 = ending.elim (.ok (.field none)) .error) ∧
        ((s.ask (.field c name)).1 = .ok (.field none) →
          (s.ask (.chain c)).1 = .ok (.handles types) ∧
          ∀ t ∈ types, (s.hierarchy.ownMembers t).hasField name = false)) ∧
      ∀ name descriptor,
        ((∃ t ∈ types, (s.hierarchy.ownMembers t).hasMethod ⟨name, descriptor⟩ = true) →
          ∃ t m, Nearest s.hierarchy.methodsOf types ⟨name, descriptor⟩ t m ∧ m.declaring = t ∧
            (s.ask (.method c name descriptor)).1 = .ok (.method (some m))) ∧
        ((∀ t ∈ types, (s.hierarchy.ownMembers t).hasMethod ⟨name, descriptor⟩ = false) →
          (s.ask (.method c name descriptor)).1 = ending.elim (.ok (.method none)) .error) ∧
        ((s.ask (.method c name descriptor)).1 = .ok (.method none) →
          (s.ask (.chain c)).1 = .ok (.handles types) ∧
          ∀ t ∈ types, (s.hierarchy.ownMembers t).hasMethod ⟨name, descriptor⟩ = false) := by
  have hw := hs.hierarchy.wellFormed
  obtain ⟨types, ending, hc⟩ := Hierarchy.exists_climb s.hierarchy [] c
  have chain (complete : ending = none) : (s.ask (.chain c)).1 = .ok (.handles types) := by
    subst complete
    exact (hs.ask_eq_ok_iff rfl fun _ => Answer.handles.inj).mpr (Hierarchy.chain_eq hc)
  refine ⟨types, ending, hc.take_eq, ?_, ?_, fun name => ?_, fun name descriptor => ?_⟩
  · rintro e rfl
    exact hc.ending_cases hw
  · rintro rfl
    obtain ⟨t, last, root⟩ := hc.getLast?_of_root
    exact ⟨t, last, (hs.ask_eq_ok_iff rfl fun _ => Answer.handle.inj).mpr root⟩
  · obtain ⟨found, undeclared, nothing⟩ := hc.nearest_answers s.hierarchy.fieldsOf
      (fun _ _ => Answer.field.inj) (hs.ask_eq (.field c name))
    refine ⟨fun there => ?_, undeclared, fun absent => ?_⟩
    · obtain ⟨t, f, near, e⟩ := found there
      have ⟨_, _, _, declared, _⟩ := near
      exact ⟨t, f, near, (hw.declaring_of_mem_fields declared).1, e⟩
    · obtain ⟨complete, nowhere⟩ := nothing absent
      exact ⟨chain complete, nowhere⟩
  · obtain ⟨found, undeclared, nothing⟩ := hc.nearest_answers s.hierarchy.methodsOf
      (fun _ _ => Answer.method.inj) (hs.ask_eq (.method c name descriptor))
    refine ⟨fun there => ?_, undeclared, fun absent => ?_⟩
    · obtain ⟨t, m, near, e⟩ := found there
      have ⟨_, _, _, declared, _⟩ := near
      exact ⟨t, m, near, (hw.declaring_of_mem_methods declared).1, e⟩
    · obtain ⟨complete, nowhere⟩ := nothing absent
      exact ⟨chain complete, nowhere⟩

/-- A type that declares a field and has a superclass that is missing, and one below it that declares
nothing. -/
def unfinished : Scope :=
  let named (n : UInt32) : TypeId := ⟨⟨.empty⟩, ⟨n⟩⟩
  loaded none [{ Declaration.new (named 1) (.binary (some (named 3)) []) with
      members := ⟨Roster.empty.add (.new ⟨1⟩ .empty .empty none), .empty⟩ },
    .new (named 2) (.binary (some (named 1)) [])]

/-- The field is found from below, though the walk fails after its type; another field is not, and the
lookup fails as the walk does. -/
theorem ask_nearest_unfinished :
    unfinished.Reachable none ∧
      ∃ (types : List Handle) (ending : Option ResolveError),
        (∀ n, (Ascent.start ⟨1⟩).take unfinished.hierarchy (types.length + 1 + n) =
          types.map (some <| .ok ·) ++ ending.map .error :: List.replicate n none) ∧
        ending = some (.missingSuperclass ⟨0⟩ ⟨⟨.empty⟩, ⟨3⟩⟩) ∧
        ∃ f, Nearest unfinished.hierarchy.fieldsOf types ⟨1⟩ ⟨0⟩ f ∧
          (unfinished.ask (.field ⟨1⟩ ⟨1⟩)).1 = .ok (.field (some f)) := by
  have reachable : unfinished.Reachable none := reachable_loaded none _
  have found : (unfinished.ask (.field ⟨1⟩ ⟨1⟩)).1 =
      .ok (.field (some (.withOwner ⟨0⟩ (.new ⟨1⟩ .empty .empty none)))) := by
    decide +kernel
  have failed : (unfinished.ask (.field ⟨1⟩ ⟨2⟩)).1 =
      .error (.missingSuperclass ⟨0⟩ ⟨⟨.empty⟩, ⟨3⟩⟩) := by
    decide +kernel
  obtain ⟨types, ending, walk, -, -, fields, -⟩ := reachable.ask_nearest ⟨1⟩
  obtain ⟨declared, undeclared, -⟩ := fields ⟨2⟩
  obtain ⟨declared', undeclared', -⟩ := fields ⟨1⟩
  refine ⟨reachable, types, ending, walk, ?_, ?_⟩
  · have nowhere : ∀ t ∈ types, (unfinished.hierarchy.ownMembers t).hasField ⟨2⟩ = false := by
      intro t ht
      by_contra there
      obtain ⟨_, f, -, -, e⟩ := declared ⟨t, ht, eq_true_of_ne_false there⟩
      cases failed.symm.trans e
    have := undeclared nowhere
    rw [failed] at this
    cases ending with
    | none => cases this
    | some e => rw [Except.error.inj this]
  · have there : ∃ t ∈ types, (unfinished.hierarchy.ownMembers t).hasField ⟨1⟩ = true := by
      by_contra none
      have := undeclared' fun t ht => eq_false_of_ne_true fun h => none ⟨t, ht, h⟩
      rw [found] at this
      cases ending <;> cases this
    obtain ⟨t, f, near, owner, e⟩ := declared' there
    cases found.symm.trans e
    obtain rfl : ⟨0⟩ = t := owner
    exact ⟨_, near, found⟩

end Scope

end Lineage
