import Lineage.Proofs.Failure
import Lineage.Proofs.Faithful

/-!
# Scopes with and without a memo

A scope starts with a memo that knows nothing, a query leaves a faithful memo faithful, a type that is
added clears it, and a refused declaration touches nothing.  So the memo of a scope is faithful to its
hierarchy after any operations (`Reachable.faithful`), every question is answered from the types
(`Reachable.ask_eq`), and a memo that is switched off could not be told from one that is switched on.
-/

namespace Lineage.Scope

/-- The scopes that arise from an empty one by operations, in any order, with a memo that is switched
on or off. -/
inductive Reachable (implicitRoot : Option TypeId) : Scope → Prop where
  | new (memoize : Bool) : Reachable implicitRoot (.new implicitRoot memoize)
  | perform {s : Scope} : Reachable implicitRoot s → (o : Operation) →
      Reachable implicitRoot (s.perform o).2

/-- The memo of the scope is faithful to its hierarchy. -/
def Faithful (s : Scope) : Prop := s.memo.Faithful s.hierarchy

variable {root : Option TypeId} {s t : Scope} {d : Declaration}

/-! ### One operation -/

/-- A question is answered from the types, and the memo stays faithful to them. -/
theorem Faithful.ask (hs : s.Faithful) (q : Query Symbol) :
    (s.ask q).1 = s.hierarchy.answer q ∧ (s.ask q).2.Faithful := by
  obtain ⟨m', run, hm'⟩ := Recall.answer_gives s.hierarchy q s.memo hs
  unfold Scope.ask
  rw [run]
  exact ⟨rfl, hm'⟩

theorem add_of_ok {c : Handle} {h' : Hierarchy} (e : s.hierarchy.add d = .ok (c, h')) :
    s.add d = (.ok c, ⟨h', s.memo.clear⟩) := by
  rw [Scope.add, e]

theorem add_of_error {r : DeclareError} (e : s.hierarchy.add d = .error r) :
    s.add d = (.error r, s) := by
  rw [Scope.add, e]

/-- All that adding a type can do: the hierarchy takes it in and the memo starts over, or it is refused
and nothing changes. -/
theorem add_cases (s : Scope) (d : Declaration) :
    (∃ c h', s.hierarchy.add d = .ok (c, h') ∧ s.add d = (.ok c, ⟨h', s.memo.clear⟩)) ∨
      ∃ r, s.hierarchy.add d = .error r ∧ s.add d = (.error r, s) := by
  cases ha : s.hierarchy.add d with
  | ok added => exact .inl ⟨added.1, added.2, rfl, add_of_ok ha⟩
  | error r => exact .inr ⟨r, rfl, add_of_error ha⟩

/-- If a scope takes a type in, its hierarchy does. -/
theorem hierarchy_add_of_ok {c : Handle} (e : (s.add d).1 = .ok c) :
    s.hierarchy.add d = .ok (c, (s.add d).2.hierarchy) := by
  obtain ⟨k, h', ha, added⟩ | ⟨r, -, refused⟩ := add_cases s d
  · rw [added] at e ⊢
    cases e
    exact ha
  · rw [refused] at e
    cases e

/-- A memo that starts over is faithful to whatever types there are. -/
theorem Faithful.add (hs : s.Faithful) (d : Declaration) : (s.add d).2.Faithful := by
  obtain ⟨c, h', -, added⟩ | ⟨r, -, refused⟩ := add_cases s d
  · rw [added]
    exact Memo.faithful_clear h' s.memo
  · rw [refused]
    exact hs

theorem Faithful.perform (hs : s.Faithful) (o : Operation) : (s.perform o).2.Faithful := by
  cases o with
  | add d => exact hs.add d
  | ask q => exact (hs.ask q).2

/-- What comes of an operation, and the types after it, do not depend on the memo. -/
theorem perform_congr (e : s.hierarchy = t.hierarchy) (hs : s.Faithful) (ht : t.Faithful)
    (o : Operation) :
    (s.perform o).1 = (t.perform o).1 ∧ (s.perform o).2.hierarchy = (t.perform o).2.hierarchy := by
  cases o with
  | add d =>
    show Outcome.added (s.add d).1 = .added (t.add d).1 ∧
      (s.add d).2.hierarchy = (t.add d).2.hierarchy
    obtain ⟨c, h', ha, added⟩ | ⟨r, ha, refused⟩ := add_cases s d
    · rw [added, add_of_ok (e ▸ ha)]
      exact ⟨rfl, rfl⟩
    · rw [refused, add_of_error (e ▸ ha)]
      exact ⟨rfl, e⟩
  | ask q =>
    refine ⟨?_, e⟩
    show Outcome.answered (s.ask q).1 = .answered (t.ask q).1
    rw [(hs.ask q).1, (ht.ask q).1, e]

/-! ### Runs -/

theorem faithful_new (root : Option TypeId) (memoize : Bool) : (new root memoize).Faithful :=
  Memo.faithful_new _ memoize

theorem Faithful.run (hs : s.Faithful) (operations : List Operation) :
    (s.run operations).2.Faithful := by
  induction operations generalizing s with
  | nil => exact hs
  | cons o rest ih => exact ih (hs.perform o)

theorem run_congr (e : s.hierarchy = t.hierarchy) (hs : s.Faithful) (ht : t.Faithful)
    (operations : List Operation) :
    (s.run operations).1 = (t.run operations).1 ∧
      (s.run operations).2.hierarchy = (t.run operations).2.hierarchy := by
  induction operations generalizing s t with
  | nil => exact ⟨rfl, e⟩
  | cons o rest ih =>
    obtain ⟨outcome, after⟩ := perform_congr e hs ht o
    obtain ⟨outcomes, last⟩ := ih after (hs.perform o) (ht.perform o)
    refine ⟨?_, last⟩
    show (s.perform o).1 :: ((s.perform o).2.run rest).1 =
      (t.perform o).1 :: ((t.perform o).2.run rest).1
    rw [outcome, outcomes]

/-- **A memo is not noticed.**  Any operations have the same outcomes on a scope with a memo and on one
without; the types agree at every point, so that a walk meets the same types too; and whatever the
memo remembers at any point is what the types of that point say. -/
theorem run_memoized_eq_unmemoized (root : Option TypeId) (operations : List Operation) :
    ((new root true).run operations).1 = ((new root false).run operations).1 ∧
      ((new root true).run operations).2.hierarchy =
        ((new root false).run operations).2.hierarchy ∧
      ∀ k r, ((new root true).run operations).2.memo.entries[k]? = some r →
        r = ((new root true).run operations).2.hierarchy.reply k := by
  have on := faithful_new root true
  have off := faithful_new root false
  obtain ⟨outcomes, last⟩ := run_congr (s := new root true) (t := new root false) rfl on off operations
  exact ⟨outcomes, last, on.run operations⟩

/-! ### Reachable scopes -/

theorem Reachable.faithful (hs : Reachable root s) : s.Faithful := by
  induction hs with
  | new memoize => exact faithful_new root memoize
  | perform _ o ih => exact ih.perform o

/-- The hierarchy of a reachable scope arises by adding types. -/
theorem Reachable.hierarchy (hs : Reachable root s) : s.hierarchy.Reachable root := by
  induction hs with
  | new memoize => exact .empty
  | @perform s hs o ih =>
    cases o with
    | ask q => exact ih
    | add d =>
      show (s.add d).2.hierarchy.Reachable root
      obtain ⟨c, h', ha, added⟩ | ⟨r, -, refused⟩ := add_cases s d
      · rw [added]
        exact .add ih ha
      · rw [refused]
        exact ih

/-- Every question is answered from the types. -/
theorem Reachable.ask_eq (hs : Reachable root s) (q : Query Symbol) :
    (s.ask q).1 = s.hierarchy.answer q :=
  (hs.faithful.ask q).1

/-- A question is answered well if the function behind it succeeds; `wrap` makes its result an answer. -/
theorem Reachable.ask_eq_ok_iff {α : Type} {wrap : α → Answer} {x : Except ResolveError α} {a : α}
    (hs : Reachable root s) {q : Query Symbol} (hq : s.hierarchy.answer q = x.map wrap)
    (inj : ∀ b, wrap b = wrap a → b = a) : (s.ask q).1 = .ok (wrap a) ↔ x = .ok a := by
  rw [hs.ask_eq, hq, map_eq_ok_iff]
  constructor
  · rintro ⟨b, rfl, e⟩
    rw [inj b e]
  · rintro rfl
    exact ⟨a, rfl, rfl⟩

/-- A question fails as the function behind it fails. -/
theorem Reachable.ask_eq_error_iff {α : Type} {wrap : α → Answer} {x : Except ResolveError α}
    {e : ResolveError} (hs : Reachable root s) {q : Query Symbol}
    (hq : s.hierarchy.answer q = x.map wrap) : (s.ask q).1 = .error e ↔ x = .error e := by
  rw [hs.ask_eq, hq, map_eq_error_iff]

theorem Reachable.ask_superclass_iff (hs : Reachable root s) {c : Handle} {parent : Option Handle} :
    (s.ask (.superclass c)).1 = .ok (.handle parent) ↔ s.hierarchy.superclass c = .ok parent :=
  hs.ask_eq_ok_iff rfl fun _ => Answer.handle.inj

theorem Reachable.ask_superclass_error_iff (hs : Reachable root s) {c : Handle} {e : ResolveError} :
    (s.ask (.superclass c)).1 = .error e ↔ s.hierarchy.superclass c = .error e :=
  hs.ask_eq_error_iff rfl

theorem Reachable.ask_chain_iff (hs : Reachable root s) {c : Handle} {types : List Handle} :
    (s.ask (.chain c)).1 = .ok (.handles types) ↔ s.hierarchy.chain c = .ok types :=
  hs.ask_eq_ok_iff rfl fun _ => Answer.handles.inj

theorem Reachable.ask_chain_error_iff (hs : Reachable root s) {c : Handle} {e : ResolveError} :
    (s.ask (.chain c)).1 = .error e ↔ s.hierarchy.chain c = .error e :=
  hs.ask_eq_error_iff rfl

theorem Reachable.run (hs : Reachable root s) (operations : List Operation) :
    Reachable root (s.run operations).2 := by
  induction operations generalizing s with
  | nil => exact hs
  | cons o rest ih => exact ih (hs.perform o)

/-- The scope, with a memo, in which the declarations were added one after the other. -/
def loaded (root : Option TypeId) (declarations : List Declaration) : Scope :=
  ((new root true).run (declarations.map .add)).2

theorem reachable_loaded (root : Option TypeId) (declarations : List Declaration) :
    (loaded root declarations).Reachable root :=
  (Reachable.new true).run _

end Lineage.Scope
