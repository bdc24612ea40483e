import Lineage.Provenance.Span
import Mathlib.Data.Set.Card
import Mathlib.Order.Interval.Finset.Nat
import Mathlib.Tactic.Common

/-!
# The hull of many spans

Spans are merged two at a time, many of them in any order and with any brackets (`Merging`).  What comes out has the
least start and the greatest stop, so it depends on nothing but which spans there are.  This holds for inverted and
empty spans too; but such a span has no offsets that would call for its bounds, so only without them is the hull the
least span that covers all the others.

Main facts: `Merging.le_start_iff` and `Merging.stop_le_iff` (the bounds of what comes out, by induction on the
merging), `Merging.result_congr`, `Merging.covers` and `Merging.least`, `encard_contains` (the length counts the
offsets); at the end all of it together for the spans of a list.
-/

namespace Lineage.Span

variable {s t u : Span} {a o : UInt32}

theorem eq_of_bounds (start : s.start = t.start) (stop : s.stop = t.stop) : s = t := by
  obtain ⟨_, _⟩ := s
  obtain ⟨_, _⟩ := t
  exact congrArg₂ mk start stop

/-! ### The offsets of a span -/

theorem contains_iff : s.contains o = true ↔ s.start ≤ o ∧ o < s.stop := by
  simp [contains]

theorem isEmpty_iff : s.isEmpty = true ↔ s.stop ≤ s.start := by
  simp [isEmpty]

theorem isEmpty_eq_false_iff : s.isEmpty = false ↔ s.start < s.stop := by
  rw [← Bool.not_eq_true, isEmpty_iff, UInt32.not_le]

theorem isEmpty_iff_forall : s.isEmpty = true ↔ ∀ o, s.contains o = false := by
  simp only [← Bool.not_eq_true, contains_iff, isEmpty_iff]
  constructor
  · rintro inverted o ⟨low, high⟩
    exact UInt32.not_lt.mpr inverted (Std.lt_of_le_of_lt low high)
  · intro none
    exact UInt32.not_lt.mp fun there => none s.start ⟨UInt32.le_refl _, there⟩

theorem toNat_length (s : Span) : s.length.toNat = s.stop.toNat - s.start.toNat := by
  unfold length
  split
  · rename_i h
    exact UInt32.toNat_sub_of_le _ _ h
  · rename_i h
    rw [UInt32.le_iff_toNat_le] at h
    rw [UInt32.toNat_zero]
    omega

/-- The length of a span is the number of its offsets. -/
theorem encard_contains (s : Span) : {o | s.contains o = true}.encard = s.length.toNat := by
  have numbers : UInt32.toNat '' {o | s.contains o = true} = Finset.Ico s.start.toNat s.stop.toNat := by
    ext n
    simp only [Set.mem_image, Set.mem_ofPred_eq, contains_iff, Finset.coe_Ico, Set.mem_Ico,
      UInt32.le_iff_toNat_le, UInt32.lt_iff_toNat_lt]
    constructor
    · rintro ⟨o, inside, rfl⟩
      exact inside
    · intro inside
      have bound : n < UInt32.size := inside.2.trans s.stop.toNat_lt
      refine ⟨.ofNat n, ?_, UInt32.toNat_ofNat_of_lt' bound⟩
      rwa [UInt32.toNat_ofNat_of_lt' bound]
  have injective : Function.Injective UInt32.toNat := fun _ _ => UInt32.toNat_inj.mp
  rw [← injective.encard_image, numbers, Set.encard_coe_eq_coe_finsetCard, Nat.card_Ico, toNat_length]

/-- Wider bounds cover all offsets. -/
theorem contains_of_le (start : u.start ≤ s.start) (stop : s.stop ≤ u.stop) (h : s.contains o = true) :
    u.contains o = true := by
  obtain ⟨low, high⟩ := contains_iff.mp h
  exact contains_iff.mpr ⟨Std.le_trans start low, Std.lt_of_lt_of_le high stop⟩

/-- What covers the offsets of a span that is not empty has wider bounds, since the span has a first offset and a
last one. -/
theorem le_of_covers (h : s.isEmpty = false) (covers : ∀ o, s.contains o = true → u.contains o = true) :
    u.start ≤ s.start ∧ s.stop ≤ u.stop := by
  rw [isEmpty_eq_false_iff] at h
  obtain ⟨low, -⟩ := contains_iff.mp (covers s.start (contains_iff.mpr ⟨UInt32.le_refl _, h⟩))
  refine ⟨low, ?_⟩
  rw [UInt32.lt_iff_toNat_lt] at h
  have one : (1 : UInt32) ≤ s.stop := by
    rw [UInt32.le_iff_toNat_le]
    exact Nat.lt_of_le_of_lt (Nat.zero_le _) h
  have last : (s.stop - 1).toNat = s.stop.toNat - 1 := UInt32.toNat_sub_of_le _ _ one
  -- the stop of a span that is not empty is not zero, so the last offset does not wrap around
  have inside : s.contains (s.stop - 1) = true := by
    rw [contains_iff, UInt32.le_iff_toNat_le, UInt32.lt_iff_toNat_lt, last]
    omega
  obtain ⟨-, high⟩ := contains_iff.mp (covers _ inside)
  rw [UInt32.lt_iff_toNat_lt, last] at high
  rw [UInt32.le_iff_toNat_le]
  omega

/-! ### Merging -/

theorem le_start_hull : a ≤ (s.hull t).start ↔ a ≤ s.start ∧ a ≤ t.start := by
  simp only [hull, UInt32.le_iff_toNat_le, UInt32.toNat_min, le_min_iff]

theorem stop_hull_le : (s.hull t).stop ≤ a ↔ s.stop ≤ a ∧ t.stop ≤ a := by
  simp only [hull, UInt32.le_iff_toNat_le, UInt32.toNat_max, max_le_iff]

/-- A way to merge spans two at a time: a single span, or what two such ways come to. -/
inductive Merging where
  | single (s : Span)
  | pair (m n : Merging)

namespace Merging

variable {m n : Merging}

/-- The spans that are merged, from left to right. -/
def spans : Merging → List Span
  | single s => [s]
  | pair m n => m.spans ++ n.spans

def result : Merging → Span
  | single s => s
  | pair m n => m.result.hull n.result

theorem le_start_iff : a ≤ m.result.start ↔ ∀ s ∈ m.spans, a ≤ s.start := by
  induction m with
  | single s => simp [result, spans]
  | pair m n ihm ihn => simp only [result, spans, le_start_hull, ihm, ihn, List.forall_mem_append]

theorem stop_le_iff : m.result.stop ≤ a ↔ ∀ s ∈ m.spans, s.stop ≤ a := by
  induction m with
  | single s => simp [result, spans]
  | pair m n ihm ihn => simp only [result, spans, stop_hull_le, ihm, ihn, List.forall_mem_append]

/-- Neither order nor brackets nor repetition make a difference. -/
theorem result_congr (same : ∀ s, s ∈ m.spans ↔ s ∈ n.spans) : m.result = n.result := by
  have start (a : UInt32) : a ≤ m.result.start ↔ a ≤ n.result.start := by
    simp only [le_start_iff, same]
  have stop (a : UInt32) : m.result.stop ≤ a ↔ n.result.stop ≤ a := by
    simp only [stop_le_iff, same]
  have starts : m.result.start = n.result.start :=
    UInt32.le_antisymm ((start _).mp (UInt32.le_refl _)) ((start _).mpr (UInt32.le_refl _))
  have stops : m.result.stop = n.result.stop :=
    UInt32.le_antisymm ((stop _).mpr (UInt32.le_refl _)) ((stop _).mp (UInt32.le_refl _))
  exact eq_of_bounds starts stops

theorem covers (hs : s ∈ m.spans) (h : s.contains o = true) : m.result.contains o = true :=
  contains_of_le (le_start_iff.mp (UInt32.le_refl _) s hs) (stop_le_iff.mp (UInt32.le_refl _) s hs) h

/-- Every span that covers the same offsets covers the hull. -/
theorem least (inhabited : ∀ s ∈ m.spans, s.isEmpty = false)
    (hu : ∀ s ∈ m.spans, ∀ o, s.contains o = true → u.contains o = true) (h : m.result.contains o = true) :
    u.contains o = true := by
  have bounds (s : Span) (hs : s ∈ m.spans) : u.start ≤ s.start ∧ s.stop ≤ u.stop :=
    le_of_covers (inhabited s hs) (hu s hs)
  exact contains_of_le (le_start_iff.mpr fun s hs => (bounds s hs).1)
    (stop_le_iff.mpr fun s hs => (bounds s hs).2) h

/-- The merging that takes a span and then those of a list one after the other. -/
def chain (s : Span) (l : List Span) : Merging :=
  l.foldl (fun m t => pair m (single t)) (single s)

theorem chain_concat (s : Span) (l : List Span) (t : Span) : chain s (l ++ [t]) = pair (chain s l) (single t) :=
  List.foldl_concat ..

theorem spans_chain (s : Span) (l : List Span) : (chain s l).spans = s :: l := by
  induction l using List.reverseRecOn with
  | nil => rfl
  | append_singleton l t ih => rw [chain_concat, spans, ih, spans, List.cons_append]

theorem result_chain (s : Span) (l : List Span) : (chain s l).result = l.foldl hull s := by
  induction l using List.reverseRecOn with
  | nil => rfl
  | append_singleton l t ih => rw [chain_concat, result, ih, result, List.foldl_concat]

end Merging

/-- **The hull of the spans of a list** comes out of every way of merging just these spans, in whatever order, with
whatever brackets and however often each of them.  It covers all their offsets, and if none of the spans is empty,
nothing less does.  The length of a span is the number of its offsets, and a span is empty if it has none. -/
theorem hull_of_list (s : Span) (l : List Span) :
    (∀ m : Merging, (∀ t, t ∈ m.spans ↔ t ∈ s :: l) → m.result = l.foldl hull s) ∧
      (∀ t ∈ s :: l, ∀ o, t.contains o = true → (l.foldl hull s).contains o = true) ∧
      ((∀ t ∈ s :: l, t.isEmpty = false) →
        ∀ u : Span, (∀ t ∈ s :: l, ∀ o, t.contains o = true → u.contains o = true) →
          ∀ o, (l.foldl hull s).contains o = true → u.contains o = true) ∧
      ∀ t : Span, {o | t.contains o = true}.encard = t.length.toNat ∧
        (t.isEmpty = true ↔ ∀ o, t.contains o = false) := by
  rw [← Merging.result_chain, ← Merging.spans_chain]
  exact ⟨fun m same => Merging.result_congr same, fun t ht o => Merging.covers ht,
    fun inhabited u hu o => Merging.least inhabited hu, fun t => ⟨encard_contains t, isEmpty_iff_forall⟩⟩

/-- An empty span and an inverted one make the hull reach further than the only span with offsets. -/
example : [⟨7, 7⟩, ⟨40, 35⟩].foldl hull ⟨20, 30⟩ = ⟨7, 35⟩ := by decide

end Lineage.Span
