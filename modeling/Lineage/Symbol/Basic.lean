import Lineage.Order

/-!
# Symbols

A symbol stands for one string of a symbol table.  Its 32-bit code packs the shard that holds the
string (upper four bits) and the slot of the string in that shard (lower twenty-eight bits), so
symbols are compared, ordered and stored without looking at any text.

Main facts: `shard_ofSlot` and `slot_ofSlot` (packing loses nothing), `ofSlot_shard_slot` (every
code is the packing of its own shard and slot), `compare_eq_lt_iff` (the order of codes, by shard and
slot).
-/

namespace Lineage

/-- The handle of a string: shard and slot packed into one word. -/
structure Symbol where
  code : UInt32
deriving DecidableEq

namespace Symbol

/-- The number of shards of a symbol table. -/
abbrev shardCount : Nat := 16

/-- The number of slots that a shard can address. -/
abbrev slotCount : Nat := 0x10000000

/-- The symbol of a slot of a shard. -/
def ofSlot (shard : Fin shardCount) (slot : Nat) : Symbol :=
  ⟨UInt32.ofNat (shard.val * slotCount + slot)⟩

def shard (s : Symbol) : Fin shardCount :=
  ⟨s.code.toNat / slotCount, by
    have := s.code.toNat_lt
    simp only [shardCount, slotCount]
    omega⟩

def slot (s : Symbol) : Nat :=
  s.code.toNat % slotCount

/-- The symbol of the empty string, which every table keeps in the first slot of all. -/
def empty : Symbol := ⟨0⟩

def isEmpty (s : Symbol) : Bool :=
  s == empty

def inspect (s : Symbol) : String :=
  "Name(" ++ toString s.shard.val ++ ":" ++ toString s.slot ++ ")"

section Packing

variable {i : Fin shardCount} {n : Nat}

theorem code_ofSlot (h : n < slotCount) :
    (ofSlot i n).code.toNat = i.val * slotCount + n := by
  have hi := i.isLt
  simp only [shardCount, slotCount] at hi h ⊢
  simp only [ofSlot, slotCount, UInt32.toNat_ofNat']
  omega

theorem shard_ofSlot (h : n < slotCount) : (ofSlot i n).shard = i := by
  apply Fin.ext
  simp only [shard, code_ofSlot h]
  simp only [slotCount] at h ⊢
  omega

theorem slot_ofSlot (h : n < slotCount) : (ofSlot i n).slot = n := by
  simp only [slot, code_ofSlot h]
  simp only [slotCount] at h ⊢
  omega

theorem ofSlot_shard_slot (s : Symbol) : ofSlot s.shard s.slot = s := by
  obtain ⟨c⟩ := s
  simp only [ofSlot, shard, slot, mk.injEq]
  apply UInt32.toNat_inj.mp
  have := c.toNat_lt
  simp only [slotCount, UInt32.toNat_ofNat']
  omega

end Packing

section Order

/-- Symbols are ordered by code: lower shard first, then earlier slot. -/
instance : Ord Symbol := ⟨compareOn code⟩

instance : Std.TransOrd Symbol :=
  inferInstanceAs (Std.TransCmp (compareOn code))

instance : Std.LawfulEqOrd Symbol :=
  Order.lawfulEqOn fun ⟨_⟩ ⟨_⟩ => congrArg mk

theorem compare_eq_lt_iff {s r : Symbol} :
    compare s r = .lt ↔ s.shard < r.shard ∨ s.shard = r.shard ∧ s.slot < r.slot := by
  have hs := s.code.toNat_lt
  have hr := r.code.toNat_lt
  have codes : compare s r = .lt ↔ s.code.toNat < r.code.toNat := by
    show compareOfLessAndEq s.code r.code = .lt ↔ _
    rw [compareOfLessAndEq_eq_lt, UInt32.lt_iff_toNat_lt]
  rw [codes, Fin.lt_def, Fin.ext_iff]
  simp only [shard, slot, slotCount]
  omega

end Order

end Symbol

end Lineage
