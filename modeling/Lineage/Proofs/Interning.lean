import Lineage.Proofs.Failure
import Lineage.Session.Written
import Mathlib.Logic.Relation
import Mathlib.Tactic.Common

/-!
# Symbols and strings

A symbol stands for the string that it was given out for, in every table that arises later.  What makes
this work is that a shard never holds more strings than it can address, so that no two places share a
symbol, and that interning only ever appends, so that a string keeps its place.

Main facts: `text_of_find?` (a symbol reads back as its string), `Later.find?_eq` (a string keeps its
symbol), `find?_inj`; at the end all of it together for the symbols that are given out at any two
moments, and for the type identities and selectors that are made of two of them.
-/

namespace Lineage

/-! ### Computations that intern strings -/

namespace Interning

variable {α β : Type} {x : Interning α} {t t' : SymbolTable} {b : β}

theorem run_bind_eq_ok_iff {f : α → Interning β} : (x >>= f).run t = .ok (b, t') ↔
    ∃ a t₁, x.run t = .ok (a, t₁) ∧ (f a).run t₁ = .ok (b, t') := by
  rw [StateT.run_bind, bind_eq_ok_iff, Prod.exists]

theorem run_map_eq_ok_iff {f : α → β} : (f <$> x).run t = .ok (b, t') ↔
    ∃ a, x.run t = .ok (a, t') ∧ f a = b := by
  rw [StateT.run_map]
  refine map_eq_ok_iff.trans ?_
  simp only [Prod.exists, Prod.mk.injEq]
  constructor
  · rintro ⟨a, t₁, hx, hb, rfl⟩
    exact ⟨a, hx, hb⟩
  · rintro ⟨a, hx, hb⟩
    exact ⟨a, t', hx, hb, rfl⟩

end Interning

namespace SymbolTable

open Interning

/-- The table `t'` is what `t` becomes when strings are interned, one after the other. -/
def Later (t t' : SymbolTable) : Prop :=
  Relation.ReflTransGen (fun a b => ∃ s symbol, a.intern s = .ok (symbol, b)) t t'

/-- No shard holds more strings than it can address. -/
def Addressable (t : SymbolTable) : Prop :=
  ∀ i : Fin Symbol.shardCount, (t.shards.get i).size ≤ Symbol.slotCount

variable {t t' t₁ t₂ : SymbolTable} {s r : String} {n m : Symbol}

/-! ### Looking up -/

theorem find?_eq_some_iff :
    t.find? s = some n ↔ ∃ slot, (t.shardFor s).at? slot = some s ∧ .ofSlot (shardOf s) slot = n := by
  rw [find?, Option.map_eq_some_iff]
  constructor
  · rintro ⟨slot, place, rfl⟩
    obtain ⟨s', there, rfl⟩ := Roster.at?_of_place? place
    exact ⟨slot, there, rfl⟩
  · rintro ⟨slot, there, rfl⟩
    exact ⟨slot, Roster.place?_of_at? there, rfl⟩

theorem shardFor_of_find? (hf : t.find? s = none) : (t.shardFor s).place? s = none := by
  rwa [find?, Option.map_eq_none_iff] at hf

/-- A symbol reads back as the string that it stands for. -/
theorem text_of_find? (ht : t.Addressable) (hf : t.find? s = some n) : t.text n = s := by
  obtain ⟨slot, there, rfl⟩ := find?_eq_some_iff.mp hf
  have inside : slot < Symbol.slotCount := by
    have below : slot < (t.shardFor s).size := (Array.getElem?_eq_some_iff.mp there).1
    exact Nat.lt_of_lt_of_le below (ht (shardOf s))
  simp only [text, Symbol.shard_ofSlot inside, Symbol.slot_ofSlot inside]
  exact congrArg (Option.getD · "") there

/-- Two strings that a table knows have one symbol only if they are one string. -/
theorem find?_inj (ht : t.Addressable) (hs : t.find? s = some n) (hr : t.find? r = some m) :
    n = m ↔ s = r := by
  constructor
  · rintro rfl
    rw [← text_of_find? ht hs, text_of_find? ht hr]
  · rintro rfl
    exact Option.some.inj (hs.symm.trans hr)

/-! ### Interning -/

/-- The new string is found in its slot, every other string where it was. -/
theorem find?_append (hs : t.find? s = none) (r : String) :
    (t.append s).find? r =
      if r = s then some (.ofSlot (shardOf s) (t.shardFor s).size) else t.find? r := by
  have fresh := shardFor_of_find? hs
  by_cases hr : r = s
  · subst hr
    have found : ((t.shardFor r).add r).place? r = some (t.shardFor r).size :=
      Roster.place?_add_self fresh
    rw [if_pos rfl, find?, shardFor_append, if_pos rfl, found]
    rfl
  · rw [if_neg hr, find?, find?, shardFor_append]
    split
    · rename_i same
      rw [Roster.place?_add_of_ne fresh hr]
      simp only [shardFor, same]
    · rfl

theorem intern_of_some (hs : t.find? s = some n) : t.intern s = .ok (n, t) := by
  rw [intern, hs]

theorem intern_of_none (hs : t.find? s = none) (room : (t.shardFor s).size < Symbol.slotCount) :
    t.intern s = .ok (.ofSlot (shardOf s) (t.shardFor s).size, t.append s) := by
  rw [intern, hs]
  exact if_pos room

/-- All that interning a string can do, if a slot is left: the table knows the string, or appends it. -/
theorem of_intern_ok (e : t.intern s = .ok (n, t')) :
    (t.find? s = some n ∧ t' = t) ∨
      (t.find? s = none ∧ (t.shardFor s).size < Symbol.slotCount ∧
        n = .ofSlot (shardOf s) (t.shardFor s).size ∧ t' = t.append s) := by
  unfold intern at e
  split at e
  · rename_i known
    cases e
    exact .inl ⟨known, rfl⟩
  · rename_i fresh
    dsimp only at e
    split at e
    · rename_i room
      cases e
      exact .inr ⟨fresh, room, rfl, rfl⟩
    · cases e

theorem find?_of_intern (e : t.intern s = .ok (n, t')) : t'.find? s = some n := by
  obtain ⟨known, rfl⟩ | ⟨fresh, -, rfl, rfl⟩ := of_intern_ok e
  · exact known
  · rw [find?_append fresh, if_pos rfl]

theorem intern_eq_self_iff : t.intern s = .ok (n, t) ↔ t.find? s = some n :=
  ⟨find?_of_intern, intern_of_some⟩

/-- A string that the table knows keeps its symbol when another one is interned. -/
theorem find?_intern_of_some (e : t.intern s = .ok (n, t')) (hr : t.find? r = some m) :
    t'.find? r = some m := by
  obtain ⟨-, rfl⟩ | ⟨fresh, -, -, rfl⟩ := of_intern_ok e
  · exact hr
  · rw [find?_append fresh, if_neg, hr]
    rintro rfl
    cases fresh.symm.trans hr

theorem Addressable.intern (ht : t.Addressable) (e : t.intern s = .ok (n, t')) :
    t'.Addressable := by
  obtain ⟨-, rfl⟩ | ⟨fresh, room, -, rfl⟩ := of_intern_ok e
  · exact ht
  · intro i
    show ((t.append s).shards[i]).size ≤ _
    rw [shard_append]
    split
    · exact Nat.le_trans (Nat.le_of_eq (Roster.size_add (shardFor_of_find? fresh))) room
    · exact ht i

/-! ### Later tables -/

theorem Later.addressable (later : t.Later t') (ht : t.Addressable) : t'.Addressable := by
  induction later with
  | refl => exact ht
  | tail _ step ih =>
    obtain ⟨s, n, e⟩ := step
    exact ih.intern e

/-- A string keeps its symbol. -/
theorem Later.find?_eq (later : t.Later t') (hs : t.find? s = some n) : t'.find? s = some n := by
  induction later with
  | refl => exact hs
  | tail _ step ih =>
    obtain ⟨r, m, e⟩ := step
    exact find?_intern_of_some e ih

theorem later_of_intern (e : t.intern s = .ok (n, t')) : t.Later t' := .single ⟨s, n, e⟩

theorem addressable_new : new.Addressable := by
  unfold Addressable
  decide +kernel

theorem Reachable.later_new (ht : t.Reachable) : SymbolTable.new.Later t := by
  induction ht with
  | new => exact .refl
  | intern _ e ih => exact ih.tail ⟨_, _, e⟩

theorem Reachable.later (ht : t.Reachable) (later : t.Later t') : t'.Reachable := by
  induction later with
  | refl => exact ht
  | tail _ step ih =>
    obtain ⟨s, n, e⟩ := step
    exact .intern ih e

theorem Reachable.addressable (ht : t.Reachable) : t.Addressable :=
  ht.later_new.addressable addressable_new

/-- **Symbols are faithful**: of two strings that are interned one some time after the other, the symbols
are the same only if the strings are. -/
theorem intern_eq_iff (ht : t.Addressable) (first : t.intern s = .ok (n, t₁)) (later : t₁.Later t₂)
    (second : t₂.intern r = .ok (m, t')) : n = m ↔ s = r := by
  have known := find?_intern_of_some second (later.find?_eq (find?_of_intern first))
  have fits := (later.addressable (ht.intern first)).intern second
  exact find?_inj fits known (find?_of_intern second)

/-! ### Pairs of strings -/

/-- A type identity is made of the symbols of its two strings, interned one after the other. -/
theorem of_typeId_ok {a b : String} {id : TypeId}
    (e : (WrittenType.mk a b).intern.run t = .ok (id, t')) :
    ∃ t₁, t.intern a = .ok (id.loader.name, t₁) ∧ t₁.intern b = .ok (id.name, t') := by
  obtain ⟨loader, t₁, named, e⟩ := run_bind_eq_ok_iff.mp e
  obtain ⟨n, first, rfl⟩ := run_map_eq_ok_iff.mp named
  obtain ⟨m, second, rfl⟩ := run_map_eq_ok_iff.mp e
  exact ⟨t₁, first, second⟩

/-- So is a selector. -/
theorem of_selector_ok {a b : String} {sel : Selector}
    (e : (Selector.named a b).run t = .ok (sel, t')) :
    ∃ t₁, t.intern a = .ok (sel.name, t₁) ∧ t₁.intern b = .ok (sel.descriptor, t') := by
  obtain ⟨n, t₁, first, e⟩ := run_bind_eq_ok_iff.mp e
  obtain ⟨m, t₂, second, e⟩ := run_bind_eq_ok_iff.mp e
  cases e
  exact ⟨t₁, first, second⟩

theorem selector_of_intern {a b : String} (first : t.intern a = .ok (n, t₁))
    (second : t₁.intern b = .ok (m, t')) : (Selector.named a b).run t = .ok (⟨n, m⟩, t') :=
  run_bind_eq_ok_iff.mpr ⟨n, t₁, first, run_bind_eq_ok_iff.mpr ⟨m, t', second, rfl⟩⟩

/-- Two pairs of strings that are interned one some time after the other have the same symbols only if
they are the same. -/
theorem intern_pair_eq_iff {a b a' b' : String} {n' m' : Symbol} {u u₁ u' : SymbolTable}
    (ht : t.Addressable) (first : t.intern a = .ok (n, t₁)) (second : t₁.intern b = .ok (m, t'))
    (later : t'.Later u) (first' : u.intern a' = .ok (n', u₁))
    (second' : u₁.intern b' = .ok (m', u')) : (n = n' ∧ m = m') ↔ (a = a' ∧ b = b') := by
  have left := intern_eq_iff ht first ((later_of_intern second).trans later) first'
  have right := intern_eq_iff (ht.intern first) second (later.trans (later_of_intern first')) second'
  exact and_congr left right

/-! ### Reachable tables -/

/-- The string is known from the start, so it has one symbol in all tables. -/
theorem Reachable.intern_of_predefined (ht : t.Reachable) (hs : s ∈ predefined) :
    ∃ n, SymbolTable.new.intern s = .ok (n, .new) ∧ t.intern s = .ok (n, t) := by
  have known : ∀ s ∈ predefined, (SymbolTable.new.find? s).isSome := by decide +kernel
  obtain ⟨n, hn⟩ := Option.isSome_iff_exists.mp (known s hs)
  exact ⟨n, intern_of_some hn, intern_of_some (ht.later_new.find?_eq hn)⟩

theorem Reachable.find?_empty (ht : t.Reachable) : t.find? "" = some .empty :=
  ht.later_new.find?_eq (by decide +kernel)

/-- **What a symbol stands for never changes.**  In every later table it reads back as its string and no other
string has it, so identities and selectors are equal just if they were interned from the same strings. -/
theorem Reachable.intern_faithful (ht : t.Reachable) :
    t.intern "" = .ok (.empty, t) ∧
      (∀ s ∈ predefined,
        ∃ n, SymbolTable.new.intern s = .ok (n, .new) ∧ t.intern s = .ok (n, t)) ∧
      (∀ s n t₁, t.intern s = .ok (n, t₁) →
        (n = .empty ↔ s = "") ∧
        ∀ t₂, t₁.Later t₂ → t₂.text n = s ∧ t₂.intern s = .ok (n, t₂) ∧
          ∀ r m t₃, t₂.intern r = .ok (m, t₃) → (n = m ↔ s = r)) ∧
      (∀ a b id t₁, (WrittenType.mk a b).intern.run t = .ok (id, t₁) → ∀ t₂, t₁.Later t₂ →
        ∀ a' b' id' t₃, (WrittenType.mk a' b').intern.run t₂ = .ok (id', t₃) →
          (id = id' ↔ a = a' ∧ b = b')) ∧
      ∀ a b sel t₁, (Selector.named a b).run t = .ok (sel, t₁) → ∀ t₂, t₁.Later t₂ →
        ∀ a' b' sel' t₃, (Selector.named a' b').run t₂ = .ok (sel', t₃) →
          (sel = sel' ↔ a = a' ∧ b = b') := by
  have fits := ht.addressable
  have empty := intern_of_some ht.find?_empty
  refine ⟨empty, fun s hs => ht.intern_of_predefined hs, ?_, ?_, ?_⟩
  · intro s n t₁ e
    have found := find?_of_intern e
    refine ⟨?_, fun t₂ later => ⟨?_, ?_, ?_⟩⟩
    · exact find?_inj (fits.intern e) found (find?_intern_of_some e ht.find?_empty)
    · exact text_of_find? (later.addressable (fits.intern e)) (later.find?_eq found)
    · exact intern_of_some (later.find?_eq found)
    · exact fun r m t₃ again => intern_eq_iff fits e later again
  · intro a b id t₁ e t₂ later a' b' id' t₃ e'
    obtain ⟨_, first, second⟩ := of_typeId_ok e
    obtain ⟨_, first', second'⟩ := of_typeId_ok e'
    rw [← intern_pair_eq_iff fits first second later first' second']
    obtain ⟨⟨n⟩, m⟩ := id
    obtain ⟨⟨n'⟩, m'⟩ := id'
    simp
  · intro a b sel t₁ e t₂ later a' b' sel' t₃ e'
    obtain ⟨_, first, second⟩ := of_selector_ok e
    obtain ⟨_, first', second'⟩ := of_selector_ok e'
    rw [← intern_pair_eq_iff fits first second later first' second']
    obtain ⟨n, m⟩ := sel
    obtain ⟨n', m'⟩ := sel'
    simp

/-- Two strings that agree in all that decides about their shard have different symbols, and the first
one still reads back when the second one is there. -/
theorem intern_faithful_same_shard :
    SymbolTable.new.Reachable ∧ ∃ n m t₁ t₂,
      SymbolTable.new.intern "abcdefghi" = .ok (n, t₁) ∧ t₁.intern "abcdefghj" = .ok (m, t₂) ∧
        n.shard = m.shard ∧ n ≠ m ∧ t₂.text n = "abcdefghi" := by
  let n : Symbol := .ofSlot (shardOf "abcdefghi") (SymbolTable.new.shardFor "abcdefghi").size
  let t₁ := SymbolTable.new.append "abcdefghi"
  let m : Symbol := .ofSlot (shardOf "abcdefghj") (t₁.shardFor "abcdefghj").size
  let t₂ := t₁.append "abcdefghj"
  have first : SymbolTable.new.intern "abcdefghi" = .ok (n, t₁) := by decide +kernel
  have second : t₁.intern "abcdefghj" = .ok (m, t₂) := by decide +kernel
  obtain ⟨-, faithful⟩ := (Reachable.intern_faithful .new).2.2.1 _ n t₁ first
  have differ : n = m ↔ "abcdefghi" = "abcdefghj" := (faithful t₁ .refl).2.2 _ m t₂ second
  have reads : t₂.text n = "abcdefghi" := (faithful t₂ (later_of_intern second)).1
  exact ⟨.new, n, m, t₁, t₂, first, second, by decide +kernel, differ.not.mpr (by decide), reads⟩

end SymbolTable

end Lineage
