import Lineage.Hierarchy.Member

/-!
# Nearest declarations

A row of types, each with a roster of what it declares.  Looking through the rosters in order until
one has the key (`findSome?`), looking through all declarations in one list (`flatMap`), and looking
through that list with later declarations of a key left out (`eraseDupsBy`) all find the same thing:
the declaration of the first type that declares the key.
-/

namespace Lineage

/-! ### Rosters as lists -/

namespace Roster

variable {κ α : Type} [Ord κ] [Std.TransOrd κ] {key : α → κ} {r : Roster key} {k : κ} {a : α}

theorem mem_toList_iff : a ∈ r.toList ↔ ∃ i, r.at? i = some a := by
  rw [toList, List.mem_iff_getElem?]
  simp [at?]

/-- The index finds what is listed. -/
theorem find?_eq_some_iff_mem : r.find? k = some a ↔ a ∈ r.toList ∧ key a = k := by
  rw [find?_eq_some_iff, mem_toList_iff]
  constructor
  · rintro ⟨i, hi, hk⟩
    exact ⟨⟨i, hi⟩, hk⟩
  · rintro ⟨⟨i, hi⟩, hk⟩
    exact ⟨i, hi, hk⟩

/-- No key is that of two items. -/
theorem nodup_keys (r : Roster key) : (r.toList.map key).Nodup := by
  rw [List.Nodup, List.pairwise_iff_getElem]
  intro i j hi hj hij same
  have place {n : Nat} {a : α} (e : r.toList[n]? = some a) : r.place? (key a) = some n :=
    place?_of_at? (by simpa [at?, toList] using e)
  rw [List.length_map] at hi hj
  rw [List.getElem_map, List.getElem_map] at same
  -- the one key would have both places
  have places := place (List.getElem?_eq_getElem hi)
  rw [same, place (List.getElem?_eq_getElem hj)] at places
  exact absurd (Option.some.inj places) (Nat.ne_of_gt hij)

theorem find?_eq_none_iff_mem : r.find? k = none ↔ ∀ a ∈ r.toList, key a ≠ k := by
  rw [Option.eq_none_iff_forall_ne_some]
  constructor
  · intro h a ha hk
    exact h a (find?_eq_some_iff_mem.mpr ⟨ha, hk⟩)
  · intro h a ha
    obtain ⟨hm, hk⟩ := find?_eq_some_iff_mem.mp ha
    exact h a hm hk

/-- The index finds what a search of the list finds. -/
theorem find?_eq_find?_toList [DecidableEq κ] (r : Roster key) (k : κ) :
    r.find? k = r.toList.find? fun a => key a = k := by
  cases e : r.toList.find? fun a => key a = k with
  | none =>
    rw [find?_eq_none_iff_mem]
    simpa using e
  | some a =>
    have hk : key a = k := by simpa using List.find?_some e
    exact find?_eq_some_iff_mem.mpr ⟨List.mem_of_find?_eq_some e, hk⟩

theorem contains_eq_isSome_find? (r : Roster key) (k : κ) : r.contains k = (r.find? k).isSome := by
  rw [contains, find?]
  cases place : r.place? k with
  | none => rfl
  | some i =>
    obtain ⟨a, there, -⟩ := at?_of_place? place
    rw [Option.bind_some, there]
    rfl

/-! ### One more item -/

section Insert

variable [Std.LawfulEqOrd κ]

theorem insert_of_taken (taken : r.contains (key a) = true) : r.insert a = .error a := by
  rw [insert, if_pos taken]

/-- An item with a new key goes to the end of the list. -/
theorem insert_of_new (new : r.contains (key a) = false) :
    r.insert a = .ok (r.add a) ∧ (r.add a).toList = r.toList ++ [a] := by
  constructor
  · rw [insert, if_neg (by simp [new])]
  · have free : r.place? (key a) = none := by simpa [contains] using new
    rw [toList, items_add free, Array.toList_push]
    rfl

theorem ext_toList {s : Roster key} (e : r.toList = s.toList) : r = s := ext_items (Array.toList_inj.mp e)

/-- What becomes of a roster to which an item is added. -/
theorem insert_cases (r : Roster key) (a : α) :
    ((∃ b ∈ r.toList, key b = key a) ∧ r.insert a = .error a ∧ r.add a = r) ∨
      (∀ b ∈ r.toList, key b ≠ key a) ∧ r.insert a = .ok (r.add a) ∧ (r.add a).toList = r.toList ++ [a] := by
  cases found : r.find? (key a) with
  | some b =>
    have taken : r.contains (key a) = true := by rw [contains_eq_isSome_find?, found]; rfl
    obtain ⟨i, place⟩ := Option.isSome_iff_exists.mp taken
    exact .inl ⟨⟨b, find?_eq_some_iff_mem.mp found⟩, insert_of_taken taken, add_of_taken place⟩
  | none =>
    have new : r.contains (key a) = false := by rw [contains_eq_isSome_find?, found]; rfl
    exact .inr ⟨find?_eq_none_iff_mem.mp found, insert_of_new new⟩

end Insert

end Roster

/-! ### The first of a row -/

section Nearest

variable {κ α : Type} [Ord κ] [Std.TransOrd κ] {key : α → κ}

/-- `t` is the first of `types` that declares `k`, and `a` is its declaration. -/
def Nearest (declared : Handle → Roster key) (types : List Handle) (k : κ) (t : Handle) (a : α) :
    Prop :=
  ∃ before after, types = before ++ t :: after ∧ a ∈ (declared t).toList ∧ key a = k ∧
    ∀ u ∈ before, ∀ b ∈ (declared u).toList, key b ≠ k

variable {declared : Handle → Roster key} {types : List Handle} {k : κ} {a : α}

theorem findSome?_eq_some_iff_nearest :
    (types.findSome? fun t => (declared t).find? k) = some a ↔
      ∃ t, Nearest declared types k t a := by
  rw [List.findSome?_eq_some_iff]
  constructor
  · rintro ⟨before, t, after, rfl, found, none⟩
    obtain ⟨hm, hk⟩ := Roster.find?_eq_some_iff_mem.mp found
    exact ⟨t, before, after, rfl, hm, hk, fun u hu => Roster.find?_eq_none_iff_mem.mp (none u hu)⟩
  · rintro ⟨t, before, after, rfl, hm, hk, none⟩
    exact ⟨before, t, after, rfl, Roster.find?_eq_some_iff_mem.mpr ⟨hm, hk⟩,
      fun u hu => Roster.find?_eq_none_iff_mem.mpr (none u hu)⟩

theorem findSome?_eq_none_iff_undeclared :
    (types.findSome? fun t => (declared t).find? k) = none ↔
      ∀ t ∈ types, ∀ a ∈ (declared t).toList, key a ≠ k := by
  rw [List.findSome?_eq_none_iff]
  constructor
  · exact fun h t ht => Roster.find?_eq_none_iff_mem.mp (h t ht)
  · exact fun h t ht => Roster.find?_eq_none_iff_mem.mpr (h t ht)

/-- One roster after the other, or all declarations in one list. -/
theorem find?_flatMap_eq_findSome? [DecidableEq κ] (declared : Handle → Roster key)
    (types : List Handle) (k : κ) :
    ((types.flatMap fun t => (declared t).toList).find? fun a => key a = k) =
      types.findSome? fun t => (declared t).find? k := by
  simp only [List.find?_flatMap, Roster.find?_eq_find?_toList]

end Nearest

/-! ### The first of each key -/

section FirstOfKey

variable {κ α : Type} [DecidableEq κ] (key : α → κ)

/-- A list without the items whose key came up before is a part of the list. -/
theorem eraseDupsBy_sublist (l : List α) :
    (l.eraseDupsBy fun a b => key a == key b).Sublist l := by
  match l with
  | [] => exact List.Sublist.refl []
  | a :: l =>
    rw [List.eraseDupsBy_cons]
    exact ((eraseDupsBy_sublist _).trans List.filter_sublist).cons_cons a
termination_by l.length
decreasing_by exact Nat.lt_succ_of_le (List.length_filter_le _ _)

theorem nodup_map_eraseDupsBy (l : List α) :
    ((l.eraseDupsBy fun a b => key a == key b).map key).Nodup := by
  match l with
  | [] => exact List.nodup_nil
  | a :: l =>
    rw [List.eraseDupsBy_cons, List.map_cons, List.nodup_cons]
    refine ⟨fun again => ?_, nodup_map_eraseDupsBy _⟩
    obtain ⟨b, hb, e⟩ := List.mem_map.mp again
    have := (List.mem_filter.mp ((eraseDupsBy_sublist key _).subset hb)).2
    simp [e] at this
termination_by l.length
decreasing_by exact Nat.lt_succ_of_le (List.length_filter_le _ _)

/-- Leaving out later items with a key does not change which item with that key is the first. -/
theorem find?_eraseDupsBy (l : List α) (k : κ) :
    ((l.eraseDupsBy fun a b => key a == key b).find? fun a => key a = k) =
      l.find? fun a => key a = k := by
  match l with
  | [] => rfl
  | a :: l =>
    rw [List.eraseDupsBy_cons, List.find?_cons, List.find?_cons]
    by_cases hk : key a = k
    · simp [hk]
    · simp only [hk, decide_false]
      rw [find?_eraseDupsBy, List.find?_filter]
      -- the items with the key of `a` that were left out do not have the key `k`
      congr 1
      funext b
      by_cases hb : key b = k
      · simp [hb, Ne.symm hk]
      · simp [hb]
termination_by l.length
decreasing_by exact Nat.lt_succ_of_le (List.length_filter_le _ _)

/-- In a list with one item for each key, the first item with a key is the item with that key. -/
theorem find?_eq_some_iff_of_nodup {l : List α} (nodup : (l.map key).Nodup) {k : κ} {a : α} :
    (l.find? fun b => key b = k) = some a ↔ a ∈ l ∧ key a = k := by
  induction l with
  | nil => simp
  | cons b l ih =>
    rw [List.map_cons, List.nodup_cons] at nodup
    rw [List.find?_cons]
    by_cases hb : key b = k
    · simp only [hb, decide_true, Option.some.injEq, List.mem_cons]
      constructor
      · rintro rfl
        exact ⟨.inl rfl, hb⟩
      · rintro ⟨rfl | ha, hk⟩
        · rfl
        · exact absurd (List.mem_map.mpr ⟨a, ha, hk.trans hb.symm⟩) nodup.1
    · simp only [hb, decide_false, ih nodup.2, List.mem_cons]
      constructor
      · exact fun ⟨ha, hk⟩ => ⟨.inr ha, hk⟩
      · rintro ⟨rfl | ha, hk⟩
        · exact absurd hk hb
        · exact ⟨ha, hk⟩

end FirstOfKey

end Lineage
