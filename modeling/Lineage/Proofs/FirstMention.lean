import Mathlib.Data.List.Basic
import Mathlib.Tactic.Common

/-!
# First mentions

`List.eraseDups` keeps the first mention of each item of a list and leaves out the later ones.  Picking items
out of a list before or after that comes to the same (`eraseDups_filter`), and neither changes which of two
items is mentioned first (`idxOf_filter_lt_iff`, `idxOf_eraseDups_lt_iff`).
-/

namespace Lineage

variable {α : Type} [DecidableEq α] {p : α → Bool} {l : List α} {a b : α}

/-- The first mentions of the items that are picked out are picked out of the first mentions. -/
theorem eraseDups_filter (p : α → Bool) (l : List α) :
    (l.filter p).eraseDups = l.eraseDups.filter p := by
  match l with
  | [] => rfl
  | a :: l =>
    -- the recursion is on the rest without `a`, which is shorter
    have rest := eraseDups_filter p (l.filter fun b => !b == a)
    rw [List.eraseDups_cons]
    cases ha : p a with
    | true =>
      rw [List.filter_cons_of_pos ha, List.filter_cons_of_pos ha, List.eraseDups_cons,
        List.filter_comm, rest]
    | false =>
      have without : (l.filter fun b => !b == a).filter p = l.filter p := by
        rw [List.filter_filter]
        refine List.filter_congr fun b _ => ?_
        by_cases hb : b = a <;> simp [hb, ha]
      have skipped : ¬ p a = true := by simp [ha]
      rw [List.filter_cons_of_neg skipped, List.filter_cons_of_neg skipped, ← rest, without]
termination_by l.length
decreasing_by exact Nat.lt_succ_of_le (List.length_filter_le _ _)

/-- The first mentions in two lists are those in the first, then those in the second that are new. -/
theorem eraseDups_append (l l' : List α) :
    (l ++ l').eraseDups = l.eraseDups ++ l'.eraseDups.filter (· ∉ l.eraseDups) := by
  have new : l'.removeAll l = l'.filter (· ∉ l.eraseDups) := by
    simp [List.removeAll, List.mem_eraseDups]
  rw [List.eraseDups_append, new, eraseDups_filter]

theorem eraseDups_concat (l : List α) (a : α) :
    (l ++ [a]).eraseDups = if a ∈ l then l.eraseDups else l.eraseDups ++ [a] := by
  have single : [a].eraseDups = [a] := rfl
  rw [eraseDups_append, single]
  by_cases ha : a ∈ l <;> simp [ha, List.mem_eraseDups]

/-! ### Which item comes first -/

theorem idxOf_cons_lt_iff (x : α) :
    (x :: l).idxOf a < (x :: l).idxOf b ↔ x ≠ b ∧ (x = a ∨ l.idxOf a < l.idxOf b) := by
  by_cases hb : x = b
  · simp [hb]
  · rw [List.idxOf_cons_ne _ hb]
    by_cases ha : x = a
    · subst ha
      simp [hb]
    · simp [List.idxOf_cons_ne _ ha, ha, hb]

/-- Of two items that are picked out, the one that comes first is still the first. -/
theorem idxOf_filter_lt_iff (ha : p a = true) (hb : p b = true) :
    (l.filter p).idxOf a < (l.filter p).idxOf b ↔ l.idxOf a < l.idxOf b := by
  induction l with
  | nil => rfl
  | cons x l ih =>
    by_cases hx : p x = true
    · rw [List.filter_cons_of_pos hx, idxOf_cons_lt_iff, idxOf_cons_lt_iff, ih]
    · have hxa : x ≠ a := by rintro rfl; exact hx ha
      have hxb : x ≠ b := by rintro rfl; exact hx hb
      rw [List.filter_cons_of_neg hx, ih, idxOf_cons_lt_iff]
      simp [hxa, hxb]

/-- So it is when later mentions are left out. -/
theorem idxOf_eraseDups_lt_iff (l : List α) (a b : α) :
    l.eraseDups.idxOf a < l.eraseDups.idxOf b ↔ l.idxOf a < l.idxOf b := by
  match l with
  | [] => rfl
  | x :: l =>
    rw [List.eraseDups_cons, idxOf_cons_lt_iff, idxOf_cons_lt_iff,
      idxOf_eraseDups_lt_iff (l.filter fun y => !y == x)]
    refine and_congr_right fun hb => or_congr_right' fun ha => ?_
    -- neither item is `x`, so both are picked out
    exact idxOf_filter_lt_iff (by simpa using Ne.symm ha) (by simpa using Ne.symm hb)
termination_by l.length
decreasing_by exact Nat.lt_succ_of_le (List.length_filter_le _ _)

end Lineage
