import Lineage.Proofs.FirstMention
import Lineage.Proofs.Interning
import Lineage.Proofs.Nearest
import Mathlib.Data.Finset.Card

/-!
# The numbering of strings

A table is determined by the strings that were interned, in order: each shard lists the different ones among
them that belong to it, in the order in which they first came.  `Records t ss` says that `t` is the table that
has met the strings `ss`.

Main facts: `records_new`, `Records.intern` (one string more), `Records.run` (a run) and `Records.find?_eq` (the
symbol of a string, read off the strings); at the end the symbols that a run gives out.
-/

namespace Lineage

/-- Intern strings one after the other. -/
def internStrings (ss : List String) : Interning (List Symbol) := ss.mapM internString

namespace SymbolTable

open Interning

/-- The different strings of one shard, in the order in which they first come. -/
def column (i : Fin Symbol.shardCount) (ss : List String) : List String :=
  (ss.filter (shardOf · = i)).eraseDups

/-- The symbol of a string in a table that has met the strings `ss`. -/
def symbolAmong (ss : List String) (s : String) : Symbol :=
  .ofSlot (shardOf s) ((column (shardOf s) ss).idxOf s)

/-- All strings that a table has met if `xs` were interned in a new one. -/
def history (xs : List String) : List String := "" :: predefined ++ xs

/-- The table has met the strings `ss`, in this order. -/
structure Records (t : SymbolTable) (ss : List String) : Prop where
  columns : ∀ i : Fin Symbol.shardCount, (t.shards.get i).toList = column i ss
  count : t.count = ss.toFinset.card

variable {t t' u v : SymbolTable} {s r : String} {ss xs ys : List String} {n m : Symbol}
  {names : List Symbol} {i : Fin Symbol.shardCount}

/-! ### Columns -/

theorem column_eq (i : Fin Symbol.shardCount) (ss : List String) :
    column i ss = ss.eraseDups.filter (shardOf · = i) :=
  eraseDups_filter _ ss

theorem mem_column_iff : s ∈ column i ss ↔ s ∈ ss ∧ shardOf s = i := by
  simp [column, List.mem_eraseDups]

theorem column_concat (i : Fin Symbol.shardCount) (ss : List String) (s : String) :
    column i (ss ++ [s]) = if s ∉ ss ∧ shardOf s = i then column i ss ++ [s] else column i ss := by
  rw [column_eq, column_eq, eraseDups_concat]
  by_cases old : s ∈ ss
  · simp [old]
  · by_cases here : shardOf s = i <;> simp [old, here, List.filter_append]

theorem column_extends (i : Fin Symbol.shardCount) (ss xs : List String) :
    column i ss <+: column i (ss ++ xs) := by
  rw [column, column, List.filter_append, List.eraseDups_append]
  exact List.prefix_append _ _

/-- Of two strings of a shard, the one that came first has the lower place in the column. -/
theorem idxOf_column_lt_iff (same : shardOf s = shardOf r) :
    (column (shardOf s) ss).idxOf s < (column (shardOf r) ss).idxOf r ↔ ss.idxOf s < ss.idxOf r := by
  rw [column_eq, column_eq, ← same]
  exact (idxOf_filter_lt_iff (by simp) (by simp [same])).trans (idxOf_eraseDups_lt_iff ss s r)

/-! ### What a table records -/

/-- A new string goes to the end of its shard. -/
theorem toList_add (fresh : t.find? s = none) :
    ((t.shardFor s).add s).toList = (t.shardFor s).toList ++ [s] := by
  have free : (t.shardFor s).place? (id s) = none := shardFor_of_find? fresh
  rw [Roster.toList, Roster.items_add free, Array.toList_push]
  rfl

namespace Records

theorem shardFor_eq (hr : t.Records ss) (s : String) : (t.shardFor s).toList = column (shardOf s) ss :=
  hr.columns (shardOf s)

theorem at?_eq (hr : t.Records ss) (i : Fin Symbol.shardCount) (k : Nat) :
    (t.shards.get i).at? k = (column i ss)[k]? := by
  rw [← hr.columns i]
  simp [Roster.at?, Roster.toList]

theorem size_eq (hr : t.Records ss) (i : Fin Symbol.shardCount) :
    (t.shards.get i).size = (column i ss).length := by
  rw [← hr.columns i]
  rfl

/-- **The symbol of a string** is told by the strings that the table has met. -/
theorem find?_eq (hr : t.Records ss) (hs : s ∈ ss) : t.find? s = some (symbolAmong ss s) := by
  refine find?_eq_some_iff.mpr ⟨_, ?_, rfl⟩
  exact (hr.at?_eq (shardOf s) _).trans (List.getElem?_idxOf (mem_column_iff.mpr ⟨hs, rfl⟩))

theorem find?_eq_none_iff (hr : t.Records ss) : t.find? s = none ↔ s ∉ ss := by
  constructor
  · intro absent hs
    cases absent.symm.trans (hr.find?_eq hs)
  · intro hs
    refine Option.eq_none_iff_forall_ne_some.mpr fun n found => hs ?_
    obtain ⟨k, there, -⟩ := find?_eq_some_iff.mp found
    exact (mem_column_iff.mp (List.mem_of_getElem? ((hr.at?_eq (shardOf s) k).symm.trans there))).1

theorem mem_of_find? (hr : t.Records ss) (found : t.find? s = some n) : s ∈ ss := by
  by_contra new
  cases found.symm.trans (hr.find?_eq_none_iff.mpr new)

/-- Of a table only the column of a string matters for its symbol. -/
theorem find?_congr (hr : t.Records ss) (hu : u.Records xs)
    (same : column (shardOf s) ss = column (shardOf s) xs) : t.find? s = u.find? s := by
  have shards : t.shardFor s = u.shardFor s :=
    Roster.ext_toList ((hr.shardFor_eq s).trans (same.trans (hu.shardFor_eq s).symm))
  rw [find?, find?, shards]

theorem shard_symbolAmong (hr : t.Records ss) (ht : t.Addressable) (hs : s ∈ ss) :
    (symbolAmong ss s).shard = shardOf s ∧
      (symbolAmong ss s).slot = (column (shardOf s) ss).idxOf s := by
  have inside : (column (shardOf s) ss).idxOf s < Symbol.slotCount := by
    have below := List.idxOf_lt_length_of_mem (mem_column_iff.mpr ⟨hs, rfl⟩)
    rw [← hr.size_eq] at below
    exact Nat.lt_of_lt_of_le below (ht (shardOf s))
  exact ⟨Symbol.shard_ofSlot inside, Symbol.slot_ofSlot inside⟩

/-- **One string more.** -/
theorem intern (hr : t.Records ss) (e : t.intern s = .ok (n, t')) : t'.Records (ss ++ [s]) := by
  obtain ⟨known, rfl⟩ | ⟨fresh, -, -, rfl⟩ := of_intern_ok e
  · have hs := hr.mem_of_find? known
    refine ⟨fun i => ?_, ?_⟩
    · rw [hr.columns, column_concat, if_neg fun h => h.1 hs]
    · rw [hr.count]
      simp [hs]
  · have new := hr.find?_eq_none_iff.mp fresh
    refine ⟨fun i => ?_, ?_⟩
    · show ((t.append s).shards[i]).toList = _
      rw [shard_append, column_concat]
      by_cases here : i = shardOf s
      · subst here
        rw [if_pos rfl, if_pos ⟨new, rfl⟩, toList_add fresh, hr.shardFor_eq]
      · rw [if_neg here, if_neg fun h => here h.2.symm]
        exact hr.columns i
    · have : (ss ++ [s]).toFinset = insert s ss.toFinset := by
        ext x
        simp
      rw [this, Finset.card_insert_of_notMem (by simpa using new), ← hr.count]
      rfl

end Records

theorem records_new : new.Records (history []) where
  columns := by decide +kernel
  count := by decide +kernel

/-! ### Runs -/

theorem run_cons_iff : (internStrings (s :: xs)).run t = .ok (names, t') ↔
    ∃ n u rest, t.intern s = .ok (n, u) ∧ (internStrings xs).run u = .ok (rest, t') ∧
      names = n :: rest := by
  rw [internStrings, List.mapM_cons]
  constructor
  · intro e
    obtain ⟨n, u, first, e⟩ := run_bind_eq_ok_iff.mp e
    obtain ⟨rest, _, later, e⟩ := run_bind_eq_ok_iff.mp e
    cases e
    exact ⟨n, u, rest, first, later, rfl⟩
  · rintro ⟨n, u, rest, first, later, rfl⟩
    exact run_bind_eq_ok_iff.mpr ⟨n, u, first, run_bind_eq_ok_iff.mpr ⟨rest, t', later, rfl⟩⟩

theorem later_of_run (e : (internStrings xs).run t = .ok (names, t')) : t.Later t' := by
  induction xs generalizing t names with
  | nil =>
    cases e
    exact .refl
  | cons s xs ih =>
    obtain ⟨n, u, rest, first, later, -⟩ := run_cons_iff.mp e
    exact (later_of_intern first).trans (ih later)

/-- Each table that arises from another arises by a run. -/
theorem exists_run_of_later (later : t.Later t') :
    ∃ (xs : List String) (names : List Symbol), (internStrings xs).run t = .ok (names, t') := by
  induction later using Relation.ReflTransGen.head_induction_on with
  | refl => exact ⟨[], [], rfl⟩
  | head step _ ih =>
    obtain ⟨s, n, first⟩ := step
    obtain ⟨xs, names, later⟩ := ih
    exact ⟨s :: xs, n :: names, run_cons_iff.mpr ⟨n, _, names, first, later, rfl⟩⟩

/-- The symbols that a run gives out are those of its strings, in order. -/
theorem find?_of_run (e : (internStrings xs).run t = .ok (names, t')) :
    List.Forall₂ (fun s n => t'.find? s = some n) xs names := by
  induction xs generalizing t names with
  | nil =>
    cases e
    exact .nil
  | cons s xs ih =>
    obtain ⟨n, u, rest, first, later, rfl⟩ := run_cons_iff.mp e
    exact .cons ((later_of_run later).find?_eq (find?_of_intern first)) (ih later)

/-- **Some strings more.** -/
theorem Records.run (hr : t.Records ss) (e : (internStrings xs).run t = .ok (names, t')) :
    t'.Records (ss ++ xs) := by
  induction xs generalizing t ss names with
  | nil =>
    cases e
    rwa [List.append_nil]
  | cons s xs ih =>
    obtain ⟨n, u, rest, first, later, -⟩ := run_cons_iff.mp e
    rw [List.append_cons ss s xs]
    exact ih (hr.intern first) later

theorem records_of_run (e : (internStrings xs).run new = .ok (names, t)) : t.Records (history xs) :=
  records_new.run e

theorem reachable_of_run (e : (internStrings xs).run new = .ok (names, t)) : t.Reachable :=
  Reachable.new.later (later_of_run e)

/-- **A run goes through** just if no shard gets more strings than it has slots. -/
theorem Records.exists_run_iff (hr : t.Records ss) (ht : t.Addressable) :
    (∃ names t', (internStrings xs).run t = .ok (names, t')) ↔
      ∀ i, (column i (ss ++ xs)).length ≤ Symbol.slotCount := by
  constructor
  · rintro ⟨names, t', e⟩ i
    rw [← (hr.run e).size_eq]
    exact (later_of_run e).addressable ht i
  · intro fits
    induction xs generalizing t ss with
    | nil => exact ⟨[], t, rfl⟩
    | cons s xs ih =>
      have first : ∃ n u, t.intern s = .ok (n, u) := by
        by_cases hs : s ∈ ss
        · exact ⟨_, t, intern_of_some (hr.find?_eq hs)⟩
        · have grown : (column (shardOf s) (ss ++ [s])).length ≤ Symbol.slotCount := by
            refine le_trans ?_ (fits (shardOf s))
            rw [List.append_cons ss s xs]
            exact (column_extends _ (ss ++ [s]) xs).length_le
          have room : (t.shardFor s).size < Symbol.slotCount := by
            rw [column_concat, if_pos ⟨hs, rfl⟩, List.length_append, List.length_singleton,
              ← hr.size_eq] at grown
            exact grown
          exact ⟨_, _, intern_of_none (hr.find?_eq_none_iff.mpr hs) room⟩
      obtain ⟨n, u, first⟩ := first
      rw [List.append_cons ss s xs] at fits
      obtain ⟨rest, t', later⟩ := ih (hr.intern first) (ht.intern first) fits
      exact ⟨n :: rest, t', run_cons_iff.mpr ⟨n, u, rest, first, later, rfl⟩⟩

/-! ### The order of two strings -/

section Apart

variable (apart : shardOf s ≠ shardOf r)
include apart

theorem append_comm : (t.append s).append r = (t.append r).append s := by
  have other : shardOf r ≠ shardOf s := Ne.symm apart
  have first : (t.append s).shardFor r = t.shardFor r := by rw [shardFor_append, if_neg other]
  have second : (t.append r).shardFor s = t.shardFor s := by rw [shardFor_append, if_neg apart]
  show mk ((t.append s).shards.set (shardOf r) (((t.append s).shardFor r).add r)) (t.count + 2) =
    mk ((t.append r).shards.set (shardOf s) (((t.append r).shardFor s).add s)) (t.count + 2)
  rw [first, second]
  exact congrArg (mk · _) (Vector.set_comm _ _ fun h => apart (Fin.ext h))

/-- Interning a string does not depend on strings of other shards. -/
theorem intern_append :
    (t.append s).intern r = (t.intern r).map fun (m, u) => (m, u.append s) := by
  have same : (t.append s).shardFor r = t.shardFor r := by rw [shardFor_append, if_neg (Ne.symm apart)]
  rw [SymbolTable.intern, SymbolTable.intern, find?, find?, same]
  split
  · rfl
  · dsimp only
    split
    · rw [append_comm apart]
      rfl
    · rfl

/-- **Strings of different shards** can be interned in either order. -/
theorem intern_comm (first : t.intern s = .ok (n, u)) (second : u.intern r = .ok (m, v)) :
    ∃ w, t.intern r = .ok (m, w) ∧ w.intern s = .ok (n, v) := by
  obtain ⟨known, rfl⟩ | ⟨-, -, -, rfl⟩ := of_intern_ok first
  · exact ⟨v, second, intern_of_some (find?_intern_of_some second known)⟩
  · rw [intern_append apart] at second
    obtain ⟨⟨m', w⟩, alone, e⟩ := map_eq_ok_iff.mp second
    cases e
    refine ⟨w, alone, ?_⟩
    obtain ⟨-, rfl⟩ | ⟨-, -, -, rfl⟩ := of_intern_ok alone
    · exact first
    · rw [intern_append (Ne.symm apart), first]
      exact congrArg (fun v => Except.ok (n, v)) (append_comm apart)

end Apart

/-! ### The symbols of a run -/

/-- **The numbering of strings.**  The slot of a string is its place among the different strings of its shard, in
the order in which they first came.  So no shard depends on the strings of another, and strings of different
shards may be interned in either order. -/
theorem run_numbering (xs : List String) :
    ((∃ names t, (internStrings xs).run new = .ok (names, t)) ↔
        ∀ i, (column i (history xs)).length ≤ Symbol.slotCount) ∧
      ∀ names t, (internStrings xs).run new = .ok (names, t) →
        List.Forall₂ (fun s n => t.intern s = .ok (n, t)) xs names ∧
        (∀ s ∈ history xs, ∃ n, t.intern s = .ok (n, t) ∧ n.shard = shardOf s ∧
          n.slot = (column (shardOf s) (history xs)).idxOf s) ∧
        (∀ s n r m, t.intern s = .ok (n, t) → t.intern r = .ok (m, t) →
          (compare n m = .lt ↔ shardOf s < shardOf r ∨
            shardOf s = shardOf r ∧ (history xs).idxOf s < (history xs).idxOf r)) ∧
        (∀ (ys : List String) names' u, (internStrings ys).run new = .ok (names', u) → ∀ s,
          ys.filter (shardOf · = shardOf s) = xs.filter (shardOf · = shardOf s) →
            ∀ n, u.intern s = .ok (n, u) ↔ t.intern s = .ok (n, t)) ∧
        ∀ s n u r m v, shardOf s ≠ shardOf r → t.intern s = .ok (n, u) → u.intern r = .ok (m, v) →
          ∃ w, t.intern r = .ok (m, w) ∧ w.intern s = .ok (n, v) := by
  refine ⟨records_new.exists_run_iff addressable_new, fun names t e => ?_⟩
  have hr := records_of_run e
  have ht := (reachable_of_run e).addressable
  have symbol {s : String} {n : Symbol} (known : t.intern s = .ok (n, t)) :
      n = symbolAmong (history xs) s ∧ n.shard = shardOf s ∧
        n.slot = (column (shardOf s) (history xs)).idxOf s := by
    have found := intern_eq_self_iff.mp known
    have hs := hr.mem_of_find? found
    obtain rfl := Option.some.inj (found.symm.trans (hr.find?_eq hs))
    exact ⟨rfl, hr.shard_symbolAmong ht hs⟩
  refine ⟨(find?_of_run e).imp fun s n => intern_of_some, fun s hs => ?_, fun s n r m hn hm => ?_,
    fun ys names' u e' s same n => ?_, fun s n u r m v apart => intern_comm apart⟩
  · exact ⟨_, intern_of_some (hr.find?_eq hs), hr.shard_symbolAmong ht hs⟩
  · obtain ⟨-, shard, slot⟩ := symbol hn
    obtain ⟨-, shard', slot'⟩ := symbol hm
    rw [Symbol.compare_eq_lt_iff, shard, shard', slot, slot']
    exact or_congr_right (and_congr_right idxOf_column_lt_iff)
  · have columns : column (shardOf s) (history ys) = column (shardOf s) (history xs) := by
      rw [column, column, history, history, List.filter_append, List.filter_append, same]
    rw [intern_eq_self_iff, intern_eq_self_iff, (records_of_run e').find?_congr hr columns]

/-- Two strings of one shard, the first of them twice, with others in between. -/
theorem run_numbering_repeating :
    ∃ names t,
      (internStrings ["leaf", "Base", "()V", "file:///Leaf.src", "Base"]).run new = .ok (names, t) ∧
        ∃ n m, t.intern "Base" = .ok (n, t) ∧ t.intern "file:///Leaf.src" = .ok (m, t) ∧
          n.shard = m.shard ∧ n.slot = 0 ∧ m.slot = 1 ∧ compare n m = .lt := by
  obtain ⟨goes, numbers⟩ := run_numbering ["leaf", "Base", "()V", "file:///Leaf.src", "Base"]
  obtain ⟨names, t, e⟩ := goes.mpr (by decide +kernel)
  obtain ⟨-, symbols, order, -⟩ := numbers names t e
  obtain ⟨n, hn, shard, slot⟩ := symbols "Base" (by decide)
  obtain ⟨m, hm, shard', slot'⟩ := symbols "file:///Leaf.src" (by decide)
  have same : shardOf "Base" = shardOf "file:///Leaf.src" := by decide +kernel
  refine ⟨names, t, e, n, m, hn, hm, ?_, ?_, ?_, (order _ n _ m hn hm).mpr (.inr ⟨same, by decide⟩)⟩
  · rw [shard, shard', same]
  · rw [slot]
    decide +kernel
  · rw [slot']
    decide +kernel

end SymbolTable

end Lineage
