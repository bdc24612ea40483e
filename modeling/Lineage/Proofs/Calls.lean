import Lineage.Scope
import Mathlib.Data.List.Nodup
import Mathlib.Tactic.Common

/-!
# Calls to a memo

Each time that a question is put to a memo is a call; putting one question may lead to more calls while its
answer is being found.  The queries are the same whichever way their questions are put (`Recall.answerBy`):
by `remember` they are those of the library, and by `note` they also enter each call in a ledger.

`Recall.Noted n x' x` says that `x'` does the same as `x` and enters calls for questions of a rank below `n`,
and that the memo changes by just these calls (`Memo.Gained`): there is one rule for each way in which such
computations are put together.

Main fact: `Recall.noted_answer`.
-/

namespace Lineage

/-- A question that was put to a memo, and whether the memo knew the answer. -/
structure Call where
  key : MemoKey
  known : Bool
deriving DecidableEq

/-- The keys under which no answer was known. -/
def Call.missed (calls : List Call) : List MemoKey := (calls.filter (!·.known)).map (·.key)

/-- A memo, and the calls to it so far. -/
structure Ledger where
  memo : Memo
  calls : List Call

/-- Computations that consult a memo and enter each call. -/
abbrev Noting := StateM Ledger

/-- The answer under a key as `remember` gives it, with the call entered before an answer is looked for. -/
def note (k : MemoKey) (find : Noting Reply) : Noting Reply := do
  let ledger ← get
  if ledger.memo.enabled then
    match ledger.memo.entries[k]? with
    | some reply =>
      set (Ledger.mk ledger.memo.hit (ledger.calls ++ [⟨k, true⟩]))
      return reply
    | none =>
      set (Ledger.mk ledger.memo.miss (ledger.calls ++ [⟨k, false⟩]))
      let reply ← find
      modify fun ledger => { ledger with memo := ledger.memo.store k reply }
      return reply
  else
    set (Ledger.mk ledger.memo (ledger.calls ++ [⟨k, false⟩]))
    find

section Note

variable {k : MemoKey} {find : Noting Reply} {m : Memo} {calls : List Call}

theorem note_of_disabled (off : m.enabled = false) :
    (note k find).run ⟨m, calls⟩ = find.run ⟨m, calls ++ [⟨k, false⟩]⟩ := by
  simp only [note, StateT.run_bind, StateT.run_get, StateT.run_set, pure_bind, off, Bool.false_eq_true, if_false]

theorem note_of_hit {r : Reply} (on : m.enabled = true) (hr : m.entries[k]? = some r) :
    (note k find).run ⟨m, calls⟩ = (r, ⟨m.hit, calls ++ [⟨k, true⟩]⟩) := by
  simp only [note, StateT.run_bind, StateT.run_get, pure_bind, on, hr, if_true]
  rfl

theorem note_of_miss {r : Reply} {l : Ledger} (on : m.enabled = true) (hr : m.entries[k]? = none)
    (hf : find.run ⟨m.miss, calls ++ [⟨k, false⟩]⟩ = (r, l)) :
    (note k find).run ⟨m, calls⟩ = (r, ⟨l.memo.store k r, l.calls⟩) := by
  simp only [note, StateT.run_bind, StateT.run_get, StateT.run_set, pure_bind, on, hr, hf, if_true]
  rfl

end Note

/-! ### What calls do to a memo -/

theorem Transitive.eq_of_rank {p q : Transitive} (e : p.rank = q.rank) : p = q := by
  cases p <;> cases q <;> first | rfl | cases e

namespace Memo

section Store

variable {m : Memo} {k k' : MemoKey} {r : Reply}

theorem miss_misses (m : Memo) : m.miss.misses = m.misses + 1 := rfl

theorem miss_size (m : Memo) : m.miss.size = m.size := rfl

theorem store_misses (m : Memo) (k : MemoKey) (r : Reply) : (m.store k r).misses = m.misses := rfl

theorem mem_store_iff : k' ∈ (m.store k r).entries ↔ k' = k ∨ k' ∈ m.entries := by
  rw [store, Std.ExtTreeMap.mem_insert]
  refine or_congr_left ⟨fun e => (Std.LawfulEqOrd.eq_of_compare e).symm, ?_⟩
  rintro rfl
  exact Std.ReflOrd.compare_self

/-- An answer under a new key is one more. -/
theorem size_store (new : k ∉ m.entries) : (m.store k r).size = m.size + 1 := by
  rw [size, store, Std.ExtTreeMap.size_insert, if_neg (by simpa using new)]
  rfl

theorem not_mem_entries_iff : k ∉ m.entries ↔ m.entries[k]? = none := by
  rw [Std.ExtTreeMap.mem_iff_isSome_getElem?, Option.not_isSome_iff_eq_none]

end Store

end Memo

/-- An answer that is remembered comes with the answers to the questions that it was found through. -/
def Memo.Layered (m : Memo) : Prop :=
  ∀ c p q, Transitive.rank p ≤ Transitive.rank q → ⟨c, q⟩ ∈ m.entries → ⟨c, p⟩ ∈ m.entries

/-- From `m` to `m'` a memo that is switched on has counted the calls, and its answers still come in layers. -/
structure Memo.Counted (m : Memo) (calls : List Call) (m' : Memo) : Prop where
  enabled : m'.enabled = true
  hits : m'.hits = m.hits + calls.countP (·.known)
  misses : m'.misses = m.misses + (Call.missed calls).length
  layered : m.Layered → m'.Layered

/-- `m'` is what becomes of the memo `m` by the calls: each is counted, each answer that was not known is found
once and stored, and nothing else is. -/
structure Memo.Gained (m : Memo) (calls : List Call) (m' : Memo) : Prop extends m.Counted calls m' where
  size : m'.size = m.size + (Call.missed calls).length
  fresh : ∀ k ∈ Call.missed calls, k ∉ m.entries
  nodup : (Call.missed calls).Nodup
  mem_entries : ∀ k, k ∈ m'.entries ↔ k ∈ m.entries ∨ k ∈ Call.missed calls

section Calls

variable {m m₁ m₂ : Memo} {calls calls' : List Call} {k : MemoKey}

theorem Call.missed_append (calls calls' : List Call) :
    Call.missed (calls ++ calls') = Call.missed calls ++ Call.missed calls' := by
  simp [Call.missed]

theorem Call.missed_cons_new (k : MemoKey) (calls : List Call) :
    Call.missed (⟨k, false⟩ :: calls) = k :: Call.missed calls := rfl

/-- The answer to a call is known or it is not. -/
theorem Call.countP_known_add_length_missed (calls : List Call) :
    calls.countP (·.known) + (Call.missed calls).length = calls.length := by
  rw [Call.missed, List.length_map, ← List.countP_eq_length_filter, List.length_eq_countP_add_countP (·.known)]
  simp

namespace Memo.Counted

theorem none (on : m.enabled = true) : m.Counted [] m := ⟨on, rfl, rfl, id⟩

/-- The counters outlive the answers. -/
theorem clear (on : m.enabled = true) : m.Counted [] m.clear :=
  ⟨on, rfl, rfl, fun _ _ _ _ _ hq => absurd hq Std.ExtTreeMap.not_mem_empty⟩

/-- One call after the other. -/
theorem trans (first : m.Counted calls m₁) (second : m₁.Counted calls' m₂) :
    m.Counted (calls ++ calls') m₂ where
  enabled := second.enabled
  hits := by rw [second.hits, first.hits, List.countP_append, Nat.add_assoc]
  misses := by rw [second.misses, first.misses, Call.missed_append, List.length_append, Nat.add_assoc]
  layered := fun hm => second.layered (first.layered hm)

end Memo.Counted

namespace Memo.Gained

theorem none (on : m.enabled = true) : m.Gained [] m where
  toCounted := .none on
  size := rfl
  fresh := by simp [Call.missed]
  nodup := List.nodup_nil
  mem_entries := by simp [Call.missed]

theorem trans (first : m.Gained calls m₁) (second : m₁.Gained calls' m₂) :
    m.Gained (calls ++ calls') m₂ where
  toCounted := first.toCounted.trans second.toCounted
  size := by rw [second.size, first.size, Call.missed_append, List.length_append, Nat.add_assoc]
  fresh := by
    intro k hk
    rw [Call.missed_append, List.mem_append] at hk
    rcases hk with hk | hk
    · exact first.fresh k hk
    · exact fun old => second.fresh k hk ((first.mem_entries k).mpr (.inl old))
  nodup := by
    rw [Call.missed_append, List.nodup_append]
    refine ⟨first.nodup, second.nodup, ?_⟩
    -- what was found by then is remembered, so it is not found again
    rintro k hk _ hk' rfl
    exact second.fresh k hk' ((first.mem_entries k).mpr (.inr hk))
  mem_entries := by
    intro k
    rw [second.mem_entries, first.mem_entries, Call.missed_append, List.mem_append, or_assoc]

/-- A call for an answer that is known. -/
theorem hit (on : m.enabled = true) (k : MemoKey) : m.Gained [⟨k, true⟩] m.hit where
  enabled := on
  hits := rfl
  misses := rfl
  layered := id
  size := rfl
  fresh := by simp [Call.missed]
  nodup := List.nodup_nil
  mem_entries := by simp [Call.missed, Memo.hit]

/-- A call for an answer that is not known.  The calls that it leads to are for other keys, and they leave the
memo with the answers to the questions of lower rank. -/
theorem miss (new : k ∉ m.entries) (inner : m.miss.Gained calls m₁)
    (others : ∀ call ∈ calls, call.key ≠ k)
    (lower : m.Layered → ∀ p, Transitive.rank p < k.rank → ⟨k.type, p⟩ ∈ m₁.entries) (r : Reply) :
    m.Gained (⟨k, false⟩ :: calls) (m₁.store k r) := by
  have apart : k ∉ Call.missed calls := by
    simp only [Call.missed, List.mem_map, List.mem_filter, not_exists, not_and]
    exact fun call hc => others call hc.1
  have absent : k ∉ m₁.entries := fun old => ((inner.mem_entries k).mp old).elim new apart
  refine ⟨⟨inner.enabled, ?_, ?_, fun hm => ?_⟩, ?_, ?_, ?_, fun k' => ?_⟩
  · rw [List.countP_cons_of_neg (by simp)]
    exact inner.hits
  · rw [Call.missed_cons_new, List.length_cons, store_misses, inner.misses, miss_misses]
    omega
  · intro c p q hpq hq
    rw [mem_store_iff] at hq ⊢
    rcases hq with rfl | hq
    · rcases Nat.lt_or_eq_of_le hpq with below | same
      · exact .inr (lower hm p below)
      · exact .inl (congrArg (MemoKey.mk c) (Transitive.eq_of_rank same))
    · exact .inr (inner.layered hm c p q hpq hq)
  · rw [Call.missed_cons_new, List.length_cons, size_store absent, inner.size, miss_size]
    omega
  · rw [Call.missed_cons_new]
    exact List.forall_mem_cons.mpr ⟨new, inner.fresh⟩
  · exact List.nodup_cons.mpr ⟨apart, inner.nodup⟩
  · rw [mem_store_iff, inner.mem_entries, Call.missed_cons_new, List.mem_cons]
    exact or_left_comm

end Memo.Gained

end Calls

/-! ### The calls of a query -/

namespace Recall

/-- The two computations have one result and leave the memo the same; the first enters calls for questions of a
rank below `n`, and these are what has become of the memo.  A memo that is switched off stays as it is. -/
def Noted (n : Nat) {α : Type} (x' : Noting α) (x : Recall α) : Prop :=
  ∀ (m : Memo) (calls : List Call), ∃ (a : α) (m' : Memo) (new : List Call),
    x'.run ⟨m, calls⟩ = (a, ⟨m', calls ++ new⟩) ∧ x.run m = (a, m') ∧
      (m.enabled = false → m' = m) ∧ (m.enabled = true → m.Gained new m') ∧
      ∀ call ∈ new, call.key.rank < n

section Rules

variable {n : Nat} {α β : Type} {x' : Noting α} {x : Recall α}

theorem noted_pure (n : Nat) (a : α) : Noted n (pure a) (pure a) :=
  fun m calls => ⟨a, m, [], by rw [List.append_nil]; rfl, rfl, fun _ => rfl, .none, by simp⟩

theorem Noted.bind {f' : α → Noting β} {f : α → Recall β} (hx : Noted n x' x)
    (hf : ∀ a, Noted n (f' a) (f a)) : Noted n (x' >>= f') (x >>= f) := by
  intro m calls
  obtain ⟨a, m₁, new₁, run₁', run₁, off₁, on₁, low₁⟩ := hx m calls
  obtain ⟨b, m₂, new₂, run₂', run₂, off₂, on₂, low₂⟩ := hf a m₁ (calls ++ new₁)
  refine ⟨b, m₂, new₁ ++ new₂, ?_, ?_, fun off => ?_, fun on => ?_, ?_⟩
  · rw [StateT.run_bind, run₁', ← List.append_assoc]
    exact run₂'
  · rw [StateT.run_bind, run₁]
    exact run₂
  · obtain rfl := off₁ off
    exact off₂ off
  · exact (on₁ on).trans (on₂ (on₁ on).enabled)
  · exact fun call hc => (List.mem_append.mp hc).elim (low₁ call) (low₂ call)

theorem Noted.map (hx : Noted n x' x) (f : α → β) : Noted n (f <$> x') (f <$> x) := by
  intro m calls
  obtain ⟨a, m', new, run', run, rest⟩ := hx m calls
  exact ⟨f a, m', new, by rw [StateT.run_map, run']; rfl, by rw [StateT.run_map, run]; rfl, rest⟩

theorem Noted.mono {n' : Nat} (hx : Noted n x' x) (more : n ≤ n') : Noted n' x' x := by
  intro m calls
  obtain ⟨a, m', new, run', run, off, on, low⟩ := hx m calls
  exact ⟨a, m', new, run', run, off, on, fun call hc => Nat.lt_of_lt_of_le (low call hc) more⟩

/-- A question is put by one call, and by those that are made to find its answer.  These are for questions of
lower rank, and they leave the memo with the answers to all such questions about the type. -/
theorem Noted.remember {k : MemoKey} {find' : Noting Reply} {find : Recall Reply}
    (hf : Noted k.rank find' find)
    (lower : ∀ m : Memo, m.enabled = true → m.Layered →
      ∀ p, Transitive.rank p < k.rank → ⟨k.type, p⟩ ∈ (find.run m).2.entries) :
    Noted (k.rank + 1) (note k find') (remember k find) := by
  intro m calls
  cases on : m.enabled with
  | false =>
    obtain ⟨a, m', new, run', run, off, -, low⟩ := hf m (calls ++ [⟨k, false⟩])
    refine ⟨a, m', ⟨k, false⟩ :: new, ?_, ?_, fun _ => off on, nofun, ?_⟩
    · rw [note_of_disabled on, run', List.append_assoc]
      rfl
    · rw [remember_of_disabled on, run]
    · exact List.forall_mem_cons.mpr ⟨Nat.lt_succ_self _, fun call hc => Nat.lt_succ_of_lt (low call hc)⟩
  | true =>
    cases known : m.entries[k]? with
    | some r =>
      refine ⟨r, m.hit, [⟨k, true⟩], note_of_hit on known, remember_of_hit on known, nofun,
        fun _ => .hit on k, ?_⟩
      exact List.forall_mem_singleton.mpr (Nat.lt_succ_self _)
    | none =>
      obtain ⟨r, m', new, run', run, -, gained, low⟩ := hf m.miss (calls ++ [⟨k, false⟩])
      have others : ∀ call ∈ new, call.key ≠ k := by
        rintro call hc rfl
        exact Nat.lt_irrefl _ (low call hc)
      have below := lower m.miss on
      rw [run] at below
      refine ⟨r, m'.store k r, ⟨k, false⟩ :: new, ?_, remember_of_miss on known run, nofun,
        fun _ => .miss (Memo.not_mem_entries_iff.mpr known) (gained on) others below r, ?_⟩
      · rw [note_of_miss on known run', List.append_assoc]
        rfl
      · exact List.forall_mem_cons.mpr ⟨Nat.lt_succ_self _, fun call hc => Nat.lt_succ_of_lt (low call hc)⟩

/-- After a question was put its answer is remembered. -/
theorem mem_entries_remember {k : MemoKey} {find : Recall Reply} {m : Memo} (on : m.enabled = true) :
    k ∈ ((Lineage.remember k find).run m).2.entries := by
  cases known : m.entries[k]? with
  | some r =>
    rw [remember_of_hit on known, Std.ExtTreeMap.mem_iff_isSome_getElem?]
    exact Option.isSome_iff_exists.mpr ⟨r, known⟩
  | none =>
    have found : find.run m.miss = ((find.run m.miss).1, (find.run m.miss).2) := rfl
    rw [remember_of_miss on known found]
    exact Memo.mem_store_iff.mpr (.inl rfl)

end Rules

section Queries

variable (h : Hierarchy) (c : Handle)

theorem noted_chain : Noted 1 (chainBy note h c) (chain h c) :=
  Noted.remember (k := ⟨c, .chain⟩) (noted_pure 0 (h.chain c)) fun _ _ _ _ below => nomatch below

theorem noted_chainInterfaces : Noted 2 (chainInterfacesBy note h c) (chainInterfaces h c) := by
  refine Noted.remember ((noted_chain h c).bind fun _ => noted_pure 1 _) ?_
  intro m on hm p hp
  -- the only lower question is that for the chain, which was just put
  obtain rfl : p = .chain := Transitive.eq_of_rank (Nat.lt_one_iff.mp hp)
  exact mem_entries_remember on

theorem noted_interfaceClosure : Noted 3 (interfaceClosureBy note h c) (interfaceClosure h c) := by
  refine Noted.remember ((noted_chainInterfaces h c).bind fun _ => noted_pure 2 _) ?_
  intro m on hm p hp
  -- the interfaces were just asked for, and what lies below them is remembered with them
  obtain ⟨_, m', _, -, run, -, gained, -⟩ := noted_chainInterfaces h c m []
  have asked : ⟨c, .chainInterfaces⟩ ∈ ((chainInterfaces h c).run m).2.entries :=
    mem_entries_remember on
  show _ ∈ ((chainInterfaces h c).run m).2.entries
  rw [run] at asked ⊢
  exact (gained on).layered hm c p .chainInterfaces (Nat.le_of_lt_succ hp) asked

theorem noted_along {α : Type} (collect : List Handle → α) :
    Noted 3 (alongBy note h c collect) (alongBy remember h c collect) :=
  ((noted_chain h c).mono (by decide)).bind fun _ => noted_pure 3 _

/-- The chain is asked for once more if there are instance fields. -/
theorem noted_chainFields : Noted 3 (chainFieldsBy note h c) (chainFields h c) := by
  refine (noted_along h c _).bind fun fields => ?_
  cases fields with
  | error e => exact noted_pure 3 _
  | ok instanceFields => exact (noted_along h c _).bind fun _ => noted_pure 3 _

/-- **A query changes the memo by its calls.** -/
theorem noted_answer (q : Query Symbol) : Noted 3 (answerBy note h q) (answer h q) := by
  cases q with
  | chain c => exact ((noted_chain h c).mono (by decide)).map _
  | chainInterfaces c => exact ((noted_chainInterfaces h c).mono (by decide)).map _
  | interfaceClosure c | implements c i => exact (noted_interfaceClosure h c).map _
  | chainInstanceFields c | chainStaticFields c | chainMethods c => exact (noted_along h c _).map _
  | chainFields c => exact (noted_chainFields h c).map _
  | effectiveMethods c => exact ((noted_along h c _).bind fun _ => noted_pure 3 _).map _
  | _ => exact noted_pure 3 _

end Queries

end Recall

end Lineage
