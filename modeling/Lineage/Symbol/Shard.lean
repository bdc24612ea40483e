import Lineage.Roster
import Lineage.Symbol.Basic

/-!
# Shards

A shard keeps the strings of one part of a symbol table in the order in which they came; the place
of a string is its slot.  `shardOf` sends a string to its shard; it reads the first eight bytes of
the string only.
-/

namespace Lineage

/-- The strings of one shard, each known by itself. -/
abbrev Shard := Roster (id : String → String)

def utf8Bytes (s : String) : List UInt8 := s.toUTF8.data.toList

/-- The base-31 value of a list of bytes, in 32-bit arithmetic. -/
def rollingHash (bytes : List UInt8) : UInt32 :=
  bytes.foldl (fun h b => h * 31 + b.toUInt32) 0

/-- The shard of a string: the hash of its first eight bytes, modulo the number of shards.  The cut
may fall inside a character. -/
def shardOf (s : String) : Fin Symbol.shardCount :=
  ⟨(rollingHash ((utf8Bytes s).take 8)).toNat % Symbol.shardCount, Nat.mod_lt _ (by decide)⟩

end Lineage
