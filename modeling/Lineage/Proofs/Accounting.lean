import Lineage.Proofs.Calls
import Lineage.Proofs.Refusal
import Mathlib.Data.List.Induction

/-!
# The accounts of a memo

What an operation does to the memo of a scope: a type that is added clears it, and whatever else happens is
accounted for by the calls that were made (`perform_cases`).  A run therefore counts all of its calls
(`counted_run`), and the answers that are remembered at its end are those that were found since the last type
was added, each of them once (`run_accounts`).
-/

namespace Lineage.Scope

variable {root : Option TypeId} {s : Scope} {o : Operation} {before after : List Operation}

/-- The calls that an operation makes to the memo of the scope (`ask_noted`).  To add a type takes none. -/
def callsOf (s : Scope) : Operation → List Call
  | .add _ => []
  | .ask q => ((Recall.answerBy note s.hierarchy q).run ⟨s.memo, []⟩).2.calls

/-- The calls that are made in a run, in order. -/
def calls (s : Scope) : List Operation → List Call
  | [] => []
  | o :: rest => s.callsOf o ++ (s.perform o).2.calls rest

/-- The memo after a run that starts from nothing. -/
def memoAfter (root : Option TypeId) (memoize : Bool) (operations : List Operation) : Memo :=
  ((new root memoize).run operations).2.memo

/-! ### One operation -/

/-- To enter the calls of a question changes neither its answer nor the memo.  A memo that is switched off stays
as it is, and one that is switched on changes by the calls. -/
theorem ask_noted (s : Scope) (q : Query Symbol) :
    (Recall.answerBy note s.hierarchy q).run ⟨s.memo, []⟩ =
        ((s.ask q).1, ⟨(s.ask q).2.memo, s.callsOf (.ask q)⟩) ∧
      (s.memo.enabled = false → (s.ask q).2.memo = s.memo) ∧
      (s.memo.enabled = true → s.memo.Gained (s.callsOf (.ask q)) (s.ask q).2.memo) := by
  obtain ⟨a, m', new, run', run, off, on, -⟩ := Recall.noted_answer s.hierarchy q s.memo []
  have asked : s.ask q = (a, ⟨s.hierarchy, m'⟩) := by
    unfold Scope.ask
    rw [run]
  have entered : s.callsOf (.ask q) = new := by
    rw [callsOf, run', List.nil_append]
  rw [asked, entered]
  exact ⟨run', off, on⟩

/-- All that an operation can do to a memo that is switched on. -/
theorem perform_cases (on : s.memo.enabled = true) (o : Operation) :
    ((∃ c, (s.perform o).1 = .added (.ok c)) ∧ s.callsOf o = [] ∧
        (s.perform o).2.memo = s.memo.clear) ∨
      (∀ c, (s.perform o).1 ≠ .added (.ok c)) ∧ s.memo.Gained (s.callsOf o) (s.perform o).2.memo := by
  cases o with
  | ask q => exact .inr ⟨nofun, (s.ask_noted q).2.2 on⟩
  | add d =>
    simp only [perform]
    obtain ⟨c, h', -, added⟩ | ⟨r, -, refused⟩ := add_cases s d
    · rw [added]
      exact .inl ⟨⟨c, rfl⟩, rfl, rfl⟩
    · rw [refused]
      exact .inr ⟨nofun, .none on⟩

/-- Nothing happens to a memo that is switched off and knows nothing. -/
theorem memo_perform_of_off (off : s.memo = .new false) (o : Operation) :
    (s.perform o).2.memo = .new false := by
  cases o with
  | ask q => exact ((s.ask_noted q).2.1 (by rw [off]; rfl)).trans off
  | add d =>
    simp only [perform]
    obtain ⟨c, h', -, added⟩ | ⟨r, -, refused⟩ := add_cases s d
    · rw [added, off]
      rfl
    · rw [refused, off]

/-! ### Runs -/

theorem run_append (s : Scope) (before after : List Operation) :
    s.run (before ++ after) =
      ((s.run before).1 ++ ((s.run before).2.run after).1, ((s.run before).2.run after).2) := by
  induction before generalizing s with
  | nil => rfl
  | cons o rest ih =>
    show ((s.perform o).1 :: ((s.perform o).2.run (rest ++ after)).1,
      ((s.perform o).2.run (rest ++ after)).2) = _
    rw [ih]
    rfl

theorem memo_run_of_off (off : s.memo = .new false) (operations : List Operation) :
    (s.run operations).2.memo = .new false := by
  induction operations generalizing s with
  | nil => exact off
  | cons o rest ih => exact ih (memo_perform_of_off off o)

/-- A run counts its calls, whether or not types are added on the way. -/
theorem counted_run (on : s.memo.enabled = true) (operations : List Operation) :
    s.memo.Counted (s.calls operations) (s.run operations).2.memo := by
  induction operations generalizing s with
  | nil => exact .none on
  | cons o rest ih =>
    have step : s.memo.Counted (s.callsOf o) (s.perform o).2.memo := by
      obtain ⟨-, none, cleared⟩ | ⟨-, gained⟩ := perform_cases on o
      · rw [none, cleared]
        exact .clear on
      · exact gained.toCounted
    exact step.trans (ih step.enabled)

/-- In a run that adds no type the memo changes by the calls. -/
theorem gained_run (on : s.memo.enabled = true) {operations : List Operation}
    (quiet : ∀ c, .added (.ok c) ∉ (s.run operations).1) :
    s.memo.Gained (s.calls operations) (s.run operations).2.memo := by
  induction operations generalizing s with
  | nil => exact .none on
  | cons o rest ih =>
    have outcomes : (s.run (o :: rest)).1 = (s.perform o).1 :: ((s.perform o).2.run rest).1 := rfl
    rw [outcomes] at quiet
    obtain ⟨⟨c, added⟩, -⟩ | ⟨-, gained⟩ := perform_cases on o
    · exact absurd (added ▸ List.mem_cons_self) (quiet c)
    · exact gained.trans (ih gained.enabled fun c hc => quiet c (List.mem_cons_of_mem _ hc))

/-- Of the operations `before` the last one added a type, if there is one, and none of the operations `after`
did. -/
structure LastAdded (s : Scope) (before after : List Operation) : Prop where
  last : before = [] ∨ ∃ c, (s.run before).1.getLast? = some (.added (.ok c))
  quiet : ∀ c, .added (.ok c) ∉ ((s.run before).2.run after).1

/-- A run can be split behind the last type that it adds, where the memo knows nothing. -/
theorem exists_lastAdded (on : s.memo.enabled = true) (empty : s.memo.entries = ∅)
    (operations : List Operation) :
    ∃ before after, operations = before ++ after ∧ s.LastAdded before after ∧
      (s.run before).2.memo.entries = ∅ := by
  induction operations using List.reverseRecOn with
  | nil => exact ⟨[], [], rfl, ⟨.inl rfl, nofun⟩, empty⟩
  | append_singleton operations o ih =>
    obtain ⟨before, after, rfl, ⟨last, quiet⟩, cleared⟩ := ih
    have step := s.run_append (before ++ after) [o]
    obtain ⟨⟨c, added⟩, -, clear⟩ | ⟨other, -⟩ :=
      perform_cases (counted_run on (before ++ after)).enabled o
    · refine ⟨before ++ after ++ [o], [], by rw [List.append_nil], ⟨.inr ⟨c, ?_⟩, nofun⟩, ?_⟩
      · rw [step]
        exact List.getLast?_concat.trans (congrArg some added)
      · rw [step]
        exact congrArg Memo.entries clear
    · refine ⟨before, after ++ [o], List.append_assoc .., ⟨last, fun c hc => ?_⟩, cleared⟩
      rw [run_append] at hc
      rcases List.mem_append.mp hc with hc | hc
      · exact quiet c hc
      · rw [s.run_append before after] at other
        exact other c (List.mem_singleton.mp hc).symm

/-- **The accounts of a memo.**  The answers that it remembers are those found since the last type was added, one
for each miss, a closure with all that it was found through; the counters are the calls and never go down.
Without a memo nothing is counted and nothing remembered. -/
theorem run_accounts (root : Option TypeId) (operations : List Operation) :
    (∃ before after, operations = before ++ after ∧ (new root true).LastAdded before after ∧
        (memoAfter root true operations).size + (memoAfter root true before).misses =
          (memoAfter root true operations).misses ∧
        (Call.missed (((new root true).run before).2.calls after)).Nodup ∧
        ∀ k, k ∈ (memoAfter root true operations).entries ↔
          k ∈ Call.missed (((new root true).run before).2.calls after)) ∧
      (∀ c, (⟨c, .interfaceClosure⟩ ∈ (memoAfter root true operations).entries →
          ⟨c, .chainInterfaces⟩ ∈ (memoAfter root true operations).entries) ∧
        (⟨c, .chainInterfaces⟩ ∈ (memoAfter root true operations).entries →
          ⟨c, .chain⟩ ∈ (memoAfter root true operations).entries)) ∧
      (memoAfter root true operations).hits + (memoAfter root true operations).misses =
        ((new root true).calls operations).length ∧
      (∀ more,
        (memoAfter root true operations).hits ≤ (memoAfter root true (operations ++ more)).hits ∧
          (memoAfter root true operations).misses ≤ (memoAfter root true (operations ++ more)).misses) ∧
      (∀ d r, (((new root true).run operations).2.add d).1 = .error r →
        memoAfter root true (operations ++ [.add d]) = memoAfter root true operations) ∧
      (memoAfter root false operations).size = 0 ∧ (memoAfter root false operations).hits = 0 ∧
        (memoAfter root false operations).misses = 0 := by
  have on : (new root true).memo.enabled = true := rfl
  have counted := counted_run on operations
  have layered := counted.layered nofun
  have off : memoAfter root false operations = .new false := memo_run_of_off rfl operations
  refine ⟨?_, fun c => ⟨layered c _ _ (by decide), layered c _ _ (by decide)⟩, ?_, fun more => ?_,
    fun d r refused => ?_, by rw [off]; exact ⟨rfl, rfl, rfl⟩⟩
  · obtain ⟨before, after, rfl, lastAdded, cleared⟩ := exists_lastAdded on rfl operations
    have gained := gained_run (counted_run on before).enabled lastAdded.quiet
    have none : (memoAfter root true before).size = 0 := by
      rw [Memo.size, memoAfter, cleared]
      rfl
    have last : memoAfter root true (before ++ after) = (((new root true).run before).2.run after).2.memo := by
      rw [memoAfter, run_append]
    refine ⟨before, after, rfl, lastAdded, ?_, gained.nodup, fun k => ?_⟩
    · rw [last, gained.size, gained.misses]
      show (memoAfter root true before).size + _ + (memoAfter root true before).misses = _
      rw [none, Nat.zero_add, Nat.add_comm]
      rfl
    · rw [last, gained.mem_entries, cleared]
      exact or_iff_right Std.ExtTreeMap.not_mem_empty
  · rw [memoAfter, counted.hits, counted.misses, ← Call.countP_known_add_length_missed]
    show 0 + _ + (0 + _) = _
    rw [Nat.zero_add, Nat.zero_add]
  · have onward := counted_run counted.enabled more
    rw [memoAfter, memoAfter, run_append, onward.hits, onward.misses]
    exact ⟨Nat.le_add_right .., Nat.le_add_right ..⟩
  · rw [memoAfter, run_append]
    exact congrArg Scope.memo (snd_add_of_refused refused)

/-- Under a handle that was not given out three failures are remembered.  The fields then ask for the chain once
only, as there are no instance fields to be had. -/
example :
    (memoAfter none true [.ask (.interfaceClosure ⟨0⟩)]).misses = 3 ∧
      (memoAfter none true [.ask (.interfaceClosure ⟨0⟩), .ask (.chainFields ⟨0⟩)]).size = 3 ∧
      (memoAfter none true [.ask (.interfaceClosure ⟨0⟩), .ask (.chainFields ⟨0⟩)]).hits = 1 := by
  decide +kernel

end Lineage.Scope
