import Std.Data.ExtTreeMap

/-!
# Rosters

A roster keeps items in the order in which they came, one for each key, together with an index from
keys to places.  Items are read by place or by key and listed in order; an item whose key is taken
is turned away.

Main facts: `place?_add` and `at?_add` (what one more item does to look-ups), `at?_of_place?` and
`place?_of_at?` (the index and the items are inverse to each other), `ext_items` (a roster is
determined by its items, whatever the index looks like).
-/

namespace Lineage

/-- Items in order of arrival, with pairwise different keys, and the place of each key. -/
structure Roster {κ α : Type} [Ord κ] [Std.TransOrd κ] (key : α → κ) where
  items : Array α
  places : Std.ExtTreeMap κ Nat
  places_iff : ∀ k i, places[k]? = some i ↔ ∃ a, items[i]? = some a ∧ key a = k

namespace Roster

variable {κ α : Type} [Ord κ] [Std.TransOrd κ] {key : α → κ}

section Operations

def empty : Roster key := ⟨#[], ∅, by simp⟩

def size (r : Roster key) : Nat := r.items.size

def toList (r : Roster key) : List α := r.items.toList

def at? (r : Roster key) (i : Nat) : Option α := r.items[i]?

def place? (r : Roster key) (k : κ) : Option Nat := r.places[k]?

def find? (r : Roster key) (k : κ) : Option α := (r.place? k).bind r.at?

def contains (r : Roster key) (k : κ) : Bool := (r.place? k).isSome

variable [Std.LawfulEqOrd κ]

private theorem places_iff_push {r : Roster key} {a : α} (h : r.places[key a]? = none) (k : κ)
    (i : Nat) : (r.places.insert (key a) r.items.size)[k]? = some i ↔
      ∃ b, (r.items.push a)[i]? = some b ∧ key b = k := by
  rw [Std.ExtTreeMap.getElem?_insert, Array.getElem?_push]
  by_cases hk : key a = k
  · rw [if_pos (by rw [hk]; exact Std.ReflOrd.compare_self)]
    constructor
    · intro hi
      rw [if_pos (Option.some.inj hi).symm]
      exact ⟨a, rfl, hk⟩
    · rintro ⟨b, hb, rfl⟩
      split at hb
      · rename_i hi
        rw [hi]
      · have := (r.places_iff (key b) i).mpr ⟨b, hb, rfl⟩
        rw [← hk, h] at this
        cases this
  · rw [if_neg fun e => hk (Std.LawfulEqOrd.eq_of_compare e), r.places_iff]
    constructor
    · rintro ⟨b, hb, hbk⟩
      refine ⟨b, ?_, hbk⟩
      rw [if_neg, hb]
      rintro rfl
      simp at hb
    · rintro ⟨b, hb, hbk⟩
      split at hb
      · cases hb
        exact absurd hbk hk
      · exact ⟨b, hb, hbk⟩

/-- The roster with one more item at its end, unless the key of the item is taken. -/
def add (r : Roster key) (a : α) : Roster key :=
  match h : r.places[key a]? with
  | none => ⟨r.items.push a, r.places.insert (key a) r.items.size, places_iff_push h⟩
  | some _ => r

/-- The roster with one more item, or the item itself if its key is taken. -/
def insert (r : Roster key) (a : α) : Except α (Roster key) :=
  if r.contains (key a) then .error a else .ok (r.add a)

omit [Std.LawfulEqOrd κ] in
private theorem places_iff_map {r : Roster key} {f : α → α} (h : ∀ a, key (f a) = key a) (k : κ)
    (i : Nat) : r.places[k]? = some i ↔ ∃ b, (r.items.map f)[i]? = some b ∧ key b = k := by
  rw [r.places_iff, Array.getElem?_map]
  constructor
  · rintro ⟨a, ha, hk⟩
    exact ⟨f a, by rw [ha]; rfl, by rw [h, hk]⟩
  · rintro ⟨b, hb, hk⟩
    obtain ⟨a, ha, rfl⟩ := Option.map_eq_some_iff.mp hb
    exact ⟨a, ha, by rw [← hk, h]⟩

omit [Std.LawfulEqOrd κ] in
/-- Each item changed by a function that leaves keys alone. -/
def map (r : Roster key) (f : α → α) (h : ∀ a, key (f a) = key a) : Roster key :=
  ⟨r.items.map f, r.places, places_iff_map h⟩

end Operations

@[simp] theorem toList_map (r : Roster key) (f : α → α) (h : ∀ a, key (f a) = key a) :
    (r.map f h).toList = r.toList.map f := by
  simp [toList, map]

section Index

variable {r s : Roster key} {k : κ} {i : Nat} {a : α}

theorem place?_eq_some_iff : r.place? k = some i ↔ ∃ a, r.at? i = some a ∧ key a = k :=
  r.places_iff k i

theorem place?_of_at? (h : r.at? i = some a) : r.place? (key a) = some i :=
  place?_eq_some_iff.mpr ⟨a, h, rfl⟩

theorem at?_of_place? (h : r.place? k = some i) : ∃ a, r.at? i = some a ∧ key a = k :=
  place?_eq_some_iff.mp h

theorem find?_eq_some_iff : r.find? k = some a ↔ ∃ i, r.at? i = some a ∧ key a = k := by
  rw [find?, Option.bind_eq_some_iff]
  constructor
  · rintro ⟨i, hi, ha⟩
    obtain ⟨b, hb, hk⟩ := at?_of_place? hi
    rw [ha] at hb
    cases hb
    exact ⟨i, ha, hk⟩
  · rintro ⟨i, ha, rfl⟩
    exact ⟨i, place?_of_at? ha, ha⟩

variable [Std.LawfulEqOrd κ]

/-- An item whose key is taken is left out. -/
theorem add_of_taken (h : r.place? (key a) = some i) : r.add a = r := by
  unfold add
  split
  · rename_i hn
    rw [place?, hn] at h
    cases h
  · rfl

/-- An item with a new key goes to the end. -/
theorem items_add (h : r.place? (key a) = none) : (r.add a).items = r.items.push a := by
  unfold add
  split
  · rfl
  · rename_i j hj
    rw [place?, hj] at h
    cases h

theorem place?_add (h : r.place? (key a) = none) (k : κ) :
    (r.add a).place? k = if compare (key a) k = .eq then some r.size else r.place? k := by
  unfold add
  split
  · exact Std.ExtTreeMap.getElem?_insert
  · rename_i j hj
    rw [place?, hj] at h
    cases h

theorem place?_add_self (h : r.place? (key a) = none) : (r.add a).place? (key a) = some r.size := by
  rw [place?_add h, if_pos Std.ReflOrd.compare_self]

theorem place?_add_of_ne (h : r.place? (key a) = none) (hk : k ≠ key a) :
    (r.add a).place? k = r.place? k := by
  rw [place?_add h, if_neg fun e => hk (Std.LawfulEqOrd.eq_of_compare e).symm]

theorem size_add (h : r.place? (key a) = none) : (r.add a).size = r.size + 1 := by
  rw [size, items_add h, Array.size_push]
  rfl

theorem at?_add (h : r.place? (key a) = none) (i : Nat) :
    (r.add a).at? i = if i = r.size then some a else r.at? i := by
  rw [at?, items_add h]
  exact Array.getElem?_push

/-- Two rosters with the same items are the same: the index is a function of the items. -/
theorem ext_items (h : r.items = s.items) : r = s := by
  obtain ⟨xs, m, hm⟩ := r
  obtain ⟨ys, n, hn⟩ := s
  obtain rfl : xs = ys := h
  have : m = n := by
    apply Std.ExtTreeMap.ext_getElem?
    intro k
    apply Option.ext
    intro i
    rw [hm, hn]
  subst this
  rfl

instance [DecidableEq α] : DecidableEq (Roster key) := fun r s =>
  decidable_of_iff (r.items = s.items) ⟨ext_items, fun h => by rw [h]⟩

end Index

end Roster

end Lineage
