import Lineage.Proofs.Numbering
import Mathlib.Algebra.BigOperators.Group.Finset.Basic
import Mathlib.Data.Fintype.Basic

/-!
# How many strings there are

A table counts its strings on the side, and the count is right: it is the number of different strings that the
table has met, and each of them is in one of the shards, once.

Main facts: `Records.count_eq_sum` and `Records.size_intern`; at the end the size of a table after a run.
-/

namespace Lineage.SymbolTable

variable {t t' : SymbolTable} {s : String} {ss xs : List String} {n : Symbol} {names : List Symbol}

namespace Records

/-- A shard holds the strings that belong to it, each of them once. -/
theorem size_eq_card (hr : t.Records ss) (i : Fin Symbol.shardCount) :
    (t.shards.get i).size = {s ∈ ss.toFinset | shardOf s = i}.card := by
  have nodup : (column i ss).Nodup := by
    rw [← hr.columns i]
    simpa using (t.shards.get i).nodup_keys
  have strings : (column i ss).toFinset = {s ∈ ss.toFinset | shardOf s = i} := by
    ext s
    simp [mem_column_iff]
  rw [hr.size_eq, ← strings, List.toFinset_card_of_nodup nodup]

/-- The count is that of all shards together. -/
theorem count_eq_sum (hr : t.Records ss) :
    t.count = ∑ i : Fin Symbol.shardCount, (t.shards.get i).size := by
  rw [hr.count, Finset.card_eq_sum_card_fiberwise fun s _ => Finset.mem_coe.mpr (Finset.mem_univ (shardOf s))]
  exact Finset.sum_congr rfl fun i _ => (hr.size_eq_card i).symm

/-- Only a new string counts. -/
theorem size_intern (hr : t.Records ss) (e : t.intern s = .ok (n, t')) :
    t'.size = if s ∈ ss then t.size else t.size + 1 := by
  obtain ⟨known, rfl⟩ | ⟨fresh, -, -, rfl⟩ := of_intern_ok e
  · rw [if_pos (hr.mem_of_find? known)]
  · rw [if_neg (hr.find?_eq_none_iff.mp fresh)]
    rfl

end Records

/-- **The size of a table** to which strings were interned is the number of different strings among the empty
one, the predefined ones and these, and it is the number of strings in all shards together.  One string more adds
one if it is new and nothing otherwise, and the table is never empty. -/
theorem run_size (e : (internStrings xs).run new = .ok (names, t)) :
    t.size = (history xs).toFinset.card ∧ t.size = ∑ i : Fin Symbol.shardCount, (t.shards.get i).size ∧
      (∀ s n t', t.intern s = .ok (n, t') →
        t'.size = if s ∈ history xs then t.size else t.size + 1) ∧
      t.isEmpty = false := by
  have hr := records_of_run e
  refine ⟨hr.count, hr.count_eq_sum, fun s n t' more => hr.size_intern more, ?_⟩
  have start : (history []).toFinset ⊆ (history xs).toFinset := by
    intro s hs
    simp only [history, List.append_nil, List.mem_toFinset] at hs ⊢
    exact List.mem_append_left xs hs
  have two : 1 < (history []).toFinset.card := by decide
  have many := Finset.card_le_card start
  rw [isEmpty, hr.count]
  simp only [decide_eq_false_iff_not]
  omega

/-- Two new strings, one of them twice, and one that every table knows: eleven strings in all. -/
theorem run_size_repeating :
    ∃ names t, (internStrings ["leaf", "Base", "()V", "leaf"]).run new = .ok (names, t) ∧ t.size = 11 ∧
      ∃ n t', t.intern "base" = .ok (n, t') ∧ t'.size = 12 := by
  obtain ⟨names, t, e⟩ : ∃ names t, (internStrings ["leaf", "Base", "()V", "leaf"]).run new = .ok (names, t) :=
    (records_new.exists_run_iff addressable_new).mpr (by decide +kernel)
  obtain ⟨size, -, more, -⟩ := run_size e
  have size : t.size = 11 := size.trans (by decide)
  have hr := records_of_run e
  have fresh : t.find? "base" = none := hr.find?_eq_none_iff.mpr (by decide)
  have room : (t.shardFor "base").size < Symbol.slotCount :=
    (hr.size_eq (shardOf "base")).trans_lt (by decide +kernel)
  have added := intern_of_none fresh room
  refine ⟨names, t, e, size, _, _, added, (more _ _ _ added).trans ?_⟩
  rw [if_neg (by decide), size]

end Lineage.SymbolTable
