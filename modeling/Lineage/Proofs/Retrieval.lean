import Lineage.Proofs.Correspondence
import Lineage.Proofs.Numbering

/-!
# Reading a symbol and interning what it says

Any 32-bit code can be read as a symbol.  If the table has given the symbol out, the string that it reads as is
the one that has this symbol; otherwise there is no string in that place, and the symbol reads as the empty
string.  What makes this work is that each shard holds strings of its own only (`Records.find?_of_at?`).

Main facts: `mem_issued_iff` (the symbols that were given out are those of the strings that the table knows) and
`Reachable.find?_text`; at the end what becomes of a symbol that is read and interned again.
-/

namespace Lineage

namespace SymbolTable

/-- The symbols that a new table has given out for the predefined strings. -/
def predefinedSymbols : List Symbol := predefined.filterMap new.find?

/-- All symbols that are given out if interning strings in a new table gives `names`: that of the empty string,
those of the predefined strings, and these. -/
def issued (names : List Symbol) : List Symbol := .empty :: predefinedSymbols ++ names

variable {t : SymbolTable} {s : String} {ss xs : List String} {n m : Symbol} {names : List Symbol}

/-! ### The symbols that were given out -/

/-- A new table comes about by interning the predefined strings. -/
theorem run_predefined : (internStrings predefined).run blank = .ok (predefinedSymbols, new) := by
  decide +kernel

/-- The symbols that were given out are those of the strings that the table has met, in order. -/
theorem map_find?_history (e : (internStrings xs).run new = .ok (names, t)) :
    (history xs).map t.find? = (issued names).map some := by
  have later := later_of_run e
  refine map_eq_of_forall₂ (R := fun s n => t.find? s = some n) (fun _ _ found => found) ?_
  refine .cons (reachable_of_run e).find?_empty (List.rel_append ?_ (find?_of_run e))
  exact (find?_of_run run_predefined).imp fun _ _ => later.find?_eq

theorem mem_issued_iff (e : (internStrings xs).run new = .ok (names, t)) :
    n ∈ issued names ↔ ∃ s, t.find? s = some n := by
  have symbols := map_find?_history e
  constructor
  · intro hn
    have hm : some n ∈ (history xs).map t.find? := symbols ▸ List.mem_map_of_mem hn
    obtain ⟨s, -, found⟩ := List.mem_map.mp hm
    exact ⟨s, found⟩
  · rintro ⟨s, found⟩
    have hm : some n ∈ (issued names).map some :=
      symbols ▸ List.mem_map.mpr ⟨s, (records_of_run e).mem_of_find? found, found⟩
    obtain ⟨m, hm, same⟩ := List.mem_map.mp hm
    exact Option.some.inj same ▸ hm

/-! ### What a symbol reads as -/

namespace Records

/-- The string in the place that a symbol tells has this symbol. -/
theorem find?_of_at? (hr : t.Records ss) (there : (t.shards.get n.shard).at? n.slot = some s) :
    t.find? s = some n := by
  rw [hr.at?_eq] at there
  obtain ⟨-, home⟩ := mem_column_iff.mp (List.mem_of_getElem? there)
  refine find?_eq_some_iff.mpr ⟨n.slot, ?_, by rw [home, Symbol.ofSlot_shard_slot]⟩
  exact (hr.at?_eq (shardOf s) n.slot).trans (home ▸ there)

/-- A symbol of which there is no string reads as the empty one. -/
theorem text_of_unknown (hr : t.Records ss) (unknown : ∀ s, t.find? s ≠ some n) : t.text n = "" := by
  show ((t.shards.get n.shard).at? n.slot).getD "" = ""
  cases place : (t.shards.get n.shard).at? n.slot with
  | none => rfl
  | some s => exact absurd (hr.find?_of_at? place) (unknown s)

end Records

/-- **A symbol that is read and interned again** comes out as itself if there is a string that has it, and as
the symbol of the empty string otherwise. -/
theorem Reachable.find?_text (ht : t.Reachable) (hr : t.Records ss) (n : Symbol) :
    (∃ s, t.find? s = some n) ∧ t.find? (t.text n) = some n ∨
      (¬ ∃ s, t.find? s = some n) ∧ t.find? (t.text n) = some .empty := by
  by_cases known : ∃ s, t.find? s = some n
  · refine .inl ⟨known, ?_⟩
    obtain ⟨s, found⟩ := known
    rw [text_of_find? ht.addressable found, found]
  · refine .inr ⟨known, ?_⟩
    rw [hr.text_of_unknown fun s found => known ⟨s, found⟩, ht.find?_empty]

/-! ### Every symbol -/

/-- **Reading a symbol and interning what it says** changes nothing, even with a symbol that the table did not give
out.  It gives back each symbol that it did, and the symbol of the empty string for any other. -/
theorem Reachable.intern_text (ht : t.Reachable) :
    (∃ xs names, (internStrings xs).run SymbolTable.new = .ok (names, t)) ∧
      ∀ xs names, (internStrings xs).run SymbolTable.new = .ok (names, t) →
        (∀ n, t.text n ∈ history xs ∧
          t.intern (t.text n) = .ok (if n ∈ issued names then n else .empty, t) ∧
          (t.intern (t.text n) = .ok (n, t) ↔ n ∈ issued names)) ∧
        ∀ n ∈ issued names, ∀ m ∈ issued names, n ≠ m → t.text n ≠ t.text m := by
  refine ⟨exists_run_of_later ht.later_new, fun xs names e => ?_⟩
  have hr := records_of_run e
  refine ⟨fun n => ?_, fun n hn m hm differ same => ?_⟩
  · obtain ⟨known, found⟩ | ⟨unknown, found⟩ := ht.find?_text hr n
    · have given := (mem_issued_iff e).mpr known
      rw [intern_of_some found, if_pos given]
      exact ⟨hr.mem_of_find? found, rfl, iff_of_true rfl given⟩
    · have other : n ∉ issued names := fun hn => unknown ((mem_issued_iff e).mp hn)
      rw [intern_of_some found, if_neg other]
      refine ⟨hr.mem_of_find? found, rfl, iff_of_false (fun again => ?_) other⟩
      cases again
      exact other List.mem_cons_self
  · obtain ⟨s, found⟩ := (mem_issued_iff e).mp hn
    obtain ⟨r, found'⟩ := (mem_issued_iff e).mp hm
    rw [text_of_find? ht.addressable found, text_of_find? ht.addressable found'] at same
    subst same
    exact differ (Option.some.inj (found.symm.trans found'))

/-- After one string the last symbol of all is still not given out, but that of the string is. -/
theorem intern_text_single :
    ∃ t names, t.Reachable ∧ (internStrings ["leaf"]).run new = .ok (names, t) ∧
      t.intern (t.text (.ofSlot 15 0x0FFFFFFF)) = .ok (.empty, t) ∧
      ∃ n ∈ names, t.intern (t.text n) = .ok (n, t) ∧ t.text n ≠ t.text .empty := by
  have single : ((internStrings ["leaf"]).run new).map Prod.fst = .ok [.ofSlot 14 2] := by decide +kernel
  obtain ⟨⟨names, t⟩, e, rfl⟩ := map_eq_ok_iff.mp single
  have reachable := reachable_of_run e
  obtain ⟨symbols, apart⟩ := reachable.intern_text.2 _ _ e
  have given : Symbol.ofSlot 14 2 ∈ issued [.ofSlot 14 2] := List.mem_append_right _ List.mem_cons_self
  obtain ⟨-, foreign, -⟩ := symbols (.ofSlot 15 0x0FFFFFFF)
  refine ⟨t, _, reachable, e, ?_, _, List.mem_cons_self, (symbols _).2.2.mpr given,
    apart _ given _ List.mem_cons_self (by decide)⟩
  rw [foreign, if_neg (by decide +kernel)]

end SymbolTable

end Lineage
