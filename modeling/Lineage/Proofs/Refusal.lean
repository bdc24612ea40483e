import Lineage.Proofs.Permanence

/-!
# Refused declarations

As long as there is a handle left, a declaration is refused for one of two reasons: its identity is taken,
or it comes from an analysis and refers to a handle that was not given out.  The first reason goes before the
second, and of several such handles the first one is named.  All other declarations are accepted, whatever
names they mention.  A refused declaration leaves no trace in the scope.

Main facts: `accept_cases` (all that can become of a declaration), with what follows from it about each
outcome, and `run_refused`; at the end all of it for a scope.
-/

namespace Lineage

namespace Ancestry

variable {ancestry : Ancestry} {a : Handle} {before after : List Handle}

/-- Only an analysis refers to types by handle. -/
theorem handles_eq_append_iff : ancestry.handles = before ++ a :: after ↔
    ∃ superclass interfaces, ancestry = .synthetic superclass interfaces ∧
      superclass.toList ++ interfaces = before ++ a :: after := by
  cases ancestry with
  | source superclass names => simp [handles]
  | binary superclass names => simp [handles]
  | synthetic superclass interfaces => simp [handles]

theorem forall_mem_handles_iff {p : Handle → Prop} : (∀ a ∈ ancestry.handles, p a) ↔
    ∀ superclass interfaces, ancestry = .synthetic superclass interfaces →
      ∀ a ∈ superclass.toList ++ interfaces, p a := by
  cases ancestry with
  | source superclass names => simp [handles]
  | binary superclass names => simp [handles]
  | synthetic superclass interfaces =>
    constructor
    · rintro all _ _ ⟨⟩
      exact all
    · exact fun all => all superclass interfaces rfl

end Ancestry

namespace Hierarchy

variable {h : Hierarchy} {d : Declaration} {id : TypeId} {c a : Handle}

/-- The first handle of a declaration that was not given out. -/
def FirstUnknown (h : Hierarchy) (d : Declaration) (a : Handle) : Prop :=
  ∃ before after, d.ancestry.handles = before ++ a :: after ∧ (∀ b ∈ before, b.index < h.size) ∧
    h.size ≤ a.index

theorem find?_eq_some_iff_firstUnknown :
    (d.ancestry.handles.find? fun c => h.size ≤ c.index) = some a ↔ h.FirstUnknown d a := by
  rw [List.find?_eq_some_iff_append, FirstUnknown]
  simp only [decide_eq_true_eq, Bool.not_eq_true', decide_eq_false_iff_not, Nat.not_le]
  constructor
  · rintro ⟨outside, before, after, split, known⟩
    exact ⟨before, after, split, known, outside⟩
  · rintro ⟨before, after, split, known, outside⟩
    exact ⟨outside, before, after, split, known⟩

theorem FirstUnknown.unique {b : Handle} (ha : h.FirstUnknown d a) (hb : h.FirstUnknown d b) :
    a = b := by
  rw [← find?_eq_some_iff_firstUnknown] at ha hb
  exact Option.some.inj (ha.symm.trans hb)

/-- With one unknown handle not all are known. -/
theorem FirstUnknown.not_known (ha : h.FirstUnknown d a) :
    ¬ ∀ b ∈ d.ancestry.handles, b.index < h.size := by
  obtain ⟨before, after, split, -, outside⟩ := ha
  intro known
  have := known a (split ▸ List.mem_append_right before List.mem_cons_self)
  omega

/-! ### What becomes of a declaration -/

section Accept

variable (room : h.size < Handle.unassigned.index)
include room

/-- All that can become of a declaration while there is a handle left. -/
theorem accept_cases (d : Declaration) :
    (∃ c, h.find? d.id = some c ∧ h.accept d = .error (.duplicateType d.id c)) ∨
      h.find? d.id = none ∧
        ((∃ a, h.FirstUnknown d a ∧ h.accept d = .error (.unknownAncestor d.id a)) ∨
          (∀ a ∈ d.ancestry.handles, a.index < h.size) ∧ h.accept d = .ok (.ofIndex h.size)) := by
  cases taken : h.find? d.id with
  | some c => exact .inl ⟨c, rfl, by simp [accept, taken]⟩
  | none =>
    refine .inr ⟨rfl, ?_⟩
    cases unknown : d.ancestry.handles.find? fun c => h.size ≤ c.index with
    | some a =>
      exact .inl ⟨a, find?_eq_some_iff_firstUnknown.mp unknown, by simp [accept, taken, room, unknown]⟩
    | none =>
      refine .inr ⟨fun a ha => ?_, by simp [accept, taken, room, unknown]⟩
      simpa using List.find?_eq_none.mp unknown a ha

theorem accept_eq_duplicateType_iff :
    h.accept d = .error (.duplicateType id c) ↔ id = d.id ∧ h.find? d.id = some c := by
  obtain ⟨k, taken, e⟩ | ⟨fresh, ⟨b, -, e⟩ | ⟨-, e⟩⟩ := accept_cases room d
  · rw [e, taken]
    simp [eq_comm]
  · simp [e, fresh]
  · simp [e, fresh]

theorem accept_eq_unknownAncestor_iff : h.accept d = .error (.unknownAncestor id a) ↔
    id = d.id ∧ h.find? d.id = none ∧ h.FirstUnknown d a := by
  obtain ⟨k, taken, e⟩ | ⟨fresh, ⟨b, first, e⟩ | ⟨known, e⟩⟩ := accept_cases room d
  · simp [e, taken]
  · rw [e]
    constructor
    · rintro ⟨⟩
      exact ⟨rfl, fresh, first⟩
    · rintro ⟨rfl, -, first'⟩
      rw [first.unique first']
  · rw [e]
    simp only [reduceCtorEq, false_iff]
    exact fun ⟨_, _, first⟩ => first.not_known known

theorem accept_eq_ok_iff : h.accept d = .ok c ↔
    c = .ofIndex h.size ∧ h.find? d.id = none ∧ ∀ a ∈ d.ancestry.handles, a.index < h.size := by
  obtain ⟨k, taken, e⟩ | ⟨fresh, ⟨b, first, e⟩ | ⟨known, e⟩⟩ := accept_cases room d
  · simp [e, taken]
  · rw [e]
    simp only [reduceCtorEq, false_iff]
    exact fun ⟨_, _, known⟩ => first.not_known known
  · rw [e, Except.ok.injEq, eq_comm]
    exact ⟨fun same => ⟨same, fresh, known⟩, fun ⟨same, _⟩ => same⟩

end Accept

/-- An identity is new just if no type has it. -/
theorem WellFormed.find?_eq_none_iff (hw : h.WellFormed) :
    h.find? id = none ↔ ∀ c node, h.node? c = some node → node.id ≠ id := by
  rw [Option.eq_none_iff_forall_ne_some]
  constructor
  · intro absent c node there same
    exact absent c (hw.find?_eq_some_iff.mpr ⟨node, there, same⟩)
  · intro absent c found
    obtain ⟨node, there, same⟩ := hw.find?_eq_some_iff.mp found
    exact absent c node there same

end Hierarchy

/-! ### Refusals of a scope -/

namespace Scope

variable {root : Option TypeId} {s : Scope} {d : Declaration} {e : DeclareError}

/-- A scope says of a declaration what its hierarchy says. -/
theorem fst_add (s : Scope) (d : Declaration) : (s.add d).1 = s.hierarchy.accept d := by
  obtain ⟨c, h', ha, added⟩ | ⟨r, ha, refused⟩ := add_cases s d
  · rw [added, (Hierarchy.add_ok ha).1]
  · rw [refused, map_eq_error_iff.mp ha]

theorem snd_add_of_refused (refused : (s.add d).1 = .error e) : (s.add d).2 = s := by
  obtain ⟨c, h', -, added⟩ | ⟨r, -, same⟩ := add_cases s d
  · rw [added] at refused
    cases refused
  · rw [same]

/-- Operations after a refusal have the outcomes that they have without it. -/
theorem run_refused (refused : (s.add d).1 = .error e) (operations : List Operation) :
    s.run (.add d :: operations) =
      (.added (.error e) :: (s.run operations).1, (s.run operations).2) := by
  show (.added (s.add d).1 :: ((s.add d).2.run operations).1, ((s.add d).2.run operations).2) = _
  rw [snd_add_of_refused refused, refused]

/-- **When a declaration is refused, and that this leaves no trace.**  A duplicate is refused, then an ancestor
whose handle was not given out, the superclass before the interfaces; all else is accepted as long as there
is a handle left.  Operations after a refusal go as if it had not been tried. -/
theorem Reachable.add_verdict (hs : s.Reachable root)
    (room : s.hierarchy.size < Handle.unassigned.index) (d : Declaration) :
    (∀ id c, (s.add d).1 = .error (.duplicateType id c) ↔
        id = d.id ∧ ∃ node, s.hierarchy.node? c = some node ∧ node.id = d.id) ∧
      (∀ id a, (s.add d).1 = .error (.unknownAncestor id a) ↔
        id = d.id ∧ (∀ c node, s.hierarchy.node? c = some node → node.id ≠ d.id) ∧
          ∃ superclass interfaces before after, d.ancestry = .synthetic superclass interfaces ∧
            superclass.toList ++ interfaces = before ++ a :: after ∧
            (∀ b ∈ before, b.index < s.hierarchy.size) ∧ s.hierarchy.size ≤ a.index) ∧
      (∀ c, (s.add d).1 = .ok c ↔
        c = .ofIndex s.hierarchy.size ∧
          (∀ c node, s.hierarchy.node? c = some node → node.id ≠ d.id) ∧
          ∀ superclass interfaces, d.ancestry = .synthetic superclass interfaces →
            ∀ a ∈ superclass.toList ++ interfaces, a.index < s.hierarchy.size) ∧
      (∀ c, (s.add d).1 = .ok c →
        c.index = s.hierarchy.size ∧ (s.add d).2.hierarchy.size = s.hierarchy.size + 1) ∧
      ((∃ c, (s.add d).1 = .ok c) ∨ (∃ c, (s.add d).1 = .error (.duplicateType d.id c)) ∨
        ∃ a, (s.add d).1 = .error (.unknownAncestor d.id a)) ∧
      ∀ e, (s.add d).1 = .error e → (s.add d).2 = s ∧ ∀ operations : List Operation,
        s.run (.add d :: operations) =
          (.added (.error e) :: (s.run operations).1, (s.run operations).2) := by
  have hw := hs.hierarchy.wellFormed
  refine ⟨fun id c => ?_, fun id a => ?_, fun c => ?_, fun c added => ?_, ?_, fun e refused => ?_⟩
  · rw [fst_add, Hierarchy.accept_eq_duplicateType_iff room, hw.find?_eq_some_iff]
  · rw [fst_add, Hierarchy.accept_eq_unknownAncestor_iff room, hw.find?_eq_none_iff,
      Hierarchy.FirstUnknown]
    simp only [Ancestry.handles_eq_append_iff]
    constructor
    · rintro ⟨same, fresh, before, after, ⟨superclass, interfaces, synthetic, split⟩, rest⟩
      exact ⟨same, fresh, superclass, interfaces, before, after, synthetic, split, rest⟩
    · rintro ⟨same, fresh, superclass, interfaces, before, after, synthetic, split, rest⟩
      exact ⟨same, fresh, before, after, ⟨superclass, interfaces, synthetic, split⟩, rest⟩
  · rw [fst_add, Hierarchy.accept_eq_ok_iff room, hw.find?_eq_none_iff,
      Ancestry.forall_mem_handles_iff]
  · have grown := hierarchy_add_of_ok added
    exact ⟨Hierarchy.index_of_add grown, Hierarchy.size_add grown⟩
  · rw [fst_add]
    obtain ⟨c, -, e⟩ | ⟨-, ⟨a, -, e⟩ | ⟨-, e⟩⟩ := Hierarchy.accept_cases room d
    · exact .inr (.inl ⟨c, e⟩)
    · exact .inr (.inr ⟨a, e⟩)
    · exact .inl ⟨_, e⟩
  · exact ⟨snd_add_of_refused refused, run_refused refused⟩

/-- A type that refers to its own handle, which is given out only when it is accepted, and behind that to
the unassigned one. -/
def selfMade : Declaration := .new ⟨⟨.empty⟩, ⟨3⟩⟩ (.synthetic (some ⟨0⟩) [⟨1⟩, ⟨2⟩, .unassigned])

/-- The type is refused over its own handle; one that repeats an identity besides is a duplicate; a question
after both is answered as before. -/
theorem add_verdict_furnished :
    furnished.Reachable none ∧ furnished.hierarchy.size = 2 ∧
      (furnished.add selfMade).1 = .error (.unknownAncestor selfMade.id ⟨2⟩) ∧
      (furnished.add { selfMade with id := madeUp.id }).1 = .error (.duplicateType madeUp.id ⟨1⟩) ∧
      (furnished.add selfMade).2 = furnished ∧
      furnished.run [.add selfMade, .ask (.chain ⟨1⟩)] =
        (.added (.error (.unknownAncestor selfMade.id ⟨2⟩)) ::
          (furnished.run [.ask (.chain ⟨1⟩)]).1, (furnished.run [.ask (.chain ⟨1⟩)]).2) := by
  have reachable : furnished.Reachable none := reachable_loaded none _
  have two : furnished.hierarchy.size = 2 := by decide +kernel
  have room : furnished.hierarchy.size < Handle.unassigned.index := by rw [two]; decide
  obtain ⟨duplicate, -⟩ := reachable.add_verdict room { selfMade with id := madeUp.id }
  obtain ⟨-, unknown, -, -, -, trace⟩ := reachable.add_verdict room selfMade
  have there : furnished.hierarchy.node? ⟨1⟩ = some (madeUp.settle ⟨1⟩) := by decide +kernel
  have refused : (furnished.add selfMade).1 = .error (.unknownAncestor selfMade.id ⟨2⟩) := by
    refine (unknown _ _).mpr ⟨rfl, ?_, some ⟨0⟩, [⟨1⟩, ⟨2⟩, .unassigned], [⟨0⟩, ⟨1⟩], [.unassigned],
      rfl, rfl, ?_, ?_⟩
    · refine reachable.hierarchy.wellFormed.find?_eq_none_iff.mp ?_
      decide +kernel
    · rw [two]
      decide
    · rw [two]
      decide
  exact ⟨reachable, two, refused, (duplicate _ _).mpr ⟨rfl, _, there, rfl⟩, (trace _ refused).1,
    (trace _ refused).2 _⟩

end Scope

end Lineage
