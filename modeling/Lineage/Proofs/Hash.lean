import Lineage.Symbol.Table
import Mathlib.Data.Nat.Digits.Div
import Mathlib.Tactic.Common

/-!
# The hash behind the shards

The shard of a string comes from the value of its first bytes in base 31, which is computed in 32 bits and so wraps
around for strings of seven bytes and more.  That leaves no trace in the shard: 2³² is a multiple of the number of
shards.

Main facts: `rollingHash_concat` (one byte more) and from it `toNat_rollingHash` (the hash is the exact value modulo
2³²); `ofDigits_mod_shards` (31 is -1 modulo the number of shards); at the end the shard of a string in exact numbers.
-/

namespace Lineage

/-- The digits in base 31 that a list of bytes stands for, the last byte being the lowest digit. -/
def digits (bytes : List UInt8) : List ℕ := (bytes.map UInt8.toNat).reverse

/-- The bytes that decide about the shard of a string. -/
def leading (s : String) : List UInt8 := (utf8Bytes s).take 8

theorem length_leading (s : String) : (leading s).length = min 8 s.utf8ByteSize := by
  rw [leading, List.length_take]
  rfl

/-! ### The hash in exact numbers -/

theorem digits_concat (bytes : List UInt8) (b : UInt8) : digits (bytes ++ [b]) = b.toNat :: digits bytes := by
  simp [digits]

theorem rollingHash_concat (bytes : List UInt8) (b : UInt8) :
    rollingHash (bytes ++ [b]) = rollingHash bytes * 31 + b.toUInt32 :=
  List.foldl_concat ..

/-- Wrapping around at each byte comes to the same as reducing the exact value in the end. -/
theorem toNat_rollingHash (bytes : List UInt8) :
    (rollingHash bytes).toNat = Nat.ofDigits 31 (digits bytes) % 4294967296 := by
  -- the fold ends with the last byte, which is the lowest digit
  induction bytes using List.reverseRecOn with
  | nil => rfl
  | append_singleton bytes b ih =>
    rw [rollingHash_concat, digits_concat, Nat.ofDigits_cons, UInt32.toNat_add, UInt32.toNat_mul, ih,
      UInt8.toNat_toUInt32]
    have base : (31 : UInt32).toNat = 31 := rfl
    rw [base]
    omega

theorem val_shardOf (s : String) : (shardOf s).val = Nat.ofDigits 31 (digits (leading s)) % 16 := by
  have hash : (shardOf s).val = (rollingHash (leading s)).toNat % 16 := rfl
  rw [hash, toNat_rollingHash, Nat.mod_mod_of_dvd _ (by decide)]

/-- Modulo the number of shards, 31 is -1. -/
theorem ofDigits_mod_shards (l : List ℕ) :
    ((Nat.ofDigits 31 l % 16 : ℕ) : ℤ) = (l.map (Nat.cast : ℕ → ℤ)).alternatingSum % 16 := by
  have minusOne : (31 : ℤ) ≡ -1 [ZMOD (16 : ℕ)] := by decide
  calc ((Nat.ofDigits 31 l % 16 : ℕ) : ℤ)
      = Nat.ofDigits (31 : ℤ) l % 16 := by
        rw [Int.natCast_mod, Nat.coe_ofDigits]
        rfl
    _ = Nat.ofDigits (-1 : ℤ) l % 16 := Nat.ofDigits_zmodeq' 31 (-1) 16 minusOne l
    _ = (l.map (Nat.cast : ℕ → ℤ)).alternatingSum % 16 := by rw [Nat.ofDigits_neg_one]

/-- **The shard of a string** is the exact value of its leading bytes in base 31, modulo the number of shards; this
is also their sum with alternating signs, the last byte counting positively.  So strings with the same leading
bytes have the same shard, and each string has one in every table. -/
theorem shardOf_exact (s : String) :
    (leading s).length = min 8 s.utf8ByteSize ∧
      (shardOf s).val < 16 ∧
      (shardOf s).val = Nat.ofDigits 31 (digits (leading s)) % 16 ∧
      ((shardOf s).val : ℤ) = ((digits (leading s)).map (Nat.cast : ℕ → ℤ)).alternatingSum % 16 ∧
      (∀ r, (utf8Bytes r).take 8 = (utf8Bytes s).take 8 → shardOf r = shardOf s) ∧
      ∀ t : SymbolTable, t.shards.toArray[(shardOf s).val]? = some (t.shardFor s) := by
  refine ⟨length_leading s, (shardOf s).isLt, val_shardOf s, ?_, fun r same => ?_, fun t => ?_⟩
  · rw [val_shardOf, ofDigits_mod_shards]
  · apply Fin.ext
    rw [val_shardOf, val_shardOf, leading, same, leading]
  · simp [SymbolTable.shardFor]

/-- Two strings that differ behind their eighth byte, which is the first half of a character in both of them.  The
exact value of the eight bytes does not fit in 32 bits. -/
theorem shardOf_exact_cut :
    leading "abcdefgé" = leading "abcdefgè" ∧
      (rollingHash (leading "abcdefgé")).toNat < Nat.ofDigits 31 (digits (leading "abcdefgé")) ∧
      shardOf "abcdefgé" = shardOf "abcdefgè" := by
  have same : leading "abcdefgé" = leading "abcdefgè" := by decide +kernel
  obtain ⟨-, -, -, -, shared, -⟩ := shardOf_exact "abcdefgè"
  exact ⟨same, by decide +kernel, shared "abcdefgé" same⟩

end Lineage
