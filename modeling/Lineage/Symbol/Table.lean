import Lineage.Symbol.Shard
import Lineage.Text

/-!
# Symbol tables

A symbol table gives each string that is interned into it one symbol, and reads the string back
from the symbol.  A new table holds the empty string and the well-known strings; interning a string
that the table holds changes nothing, and interning a new one appends it to its shard.  The only
failure is a shard whose slots are used up.

`Interning` is the monad of computations that intern strings on the way.
-/

namespace Lineage

/-- A shard that has no slot left, and the number of strings in it. -/
structure CapacityError where
  shard : Nat
  count : Nat
deriving DecidableEq

namespace CapacityError

def message (e : CapacityError) : String :=
  "interner shard " ++ toString e.shard ++ " exceeded capacity: " ++ toString e.count
    ++ " strings, max is " ++ toString (Symbol.slotCount - 1)

def inspect (e : CapacityError) : String :=
  Text.record "ShardOverflow" [("shard_idx", toString e.shard), ("count", toString e.count)]

end CapacityError

/-- The strings known so far, spread over the shards, and how many there are. -/
structure SymbolTable where
  shards : Vector Shard Symbol.shardCount
  count : Nat
deriving DecidableEq

namespace SymbolTable

def shardFor (t : SymbolTable) (s : String) : Shard := t.shards[shardOf s]

def find? (t : SymbolTable) (s : String) : Option Symbol :=
  ((t.shardFor s).place? s).map (Symbol.ofSlot (shardOf s))

/-- The table with a new string in the next slot of its shard. -/
def append (t : SymbolTable) (s : String) : SymbolTable where
  shards := t.shards.set (shardOf s) ((t.shardFor s).add s)
  count := t.count + 1

/-- The symbol of a string and the table that holds it.  A string that the table knows keeps its
symbol; a new one takes the next slot of its shard, if there is one. -/
def intern (t : SymbolTable) (s : String) : Except CapacityError (Symbol × SymbolTable) :=
  match t.find? s with
  | some symbol => .ok (symbol, t)
  | none =>
    let slot := (t.shardFor s).size
    if slot < Symbol.slotCount then
      .ok (Symbol.ofSlot (shardOf s) slot, t.append s)
    else
      .error ⟨shardOf s, slot⟩

/-- The string of a symbol.  A symbol that the table did not give out reads as the empty string. -/
def text (t : SymbolTable) (s : Symbol) : String :=
  (t.shards[s.shard].at? s.slot).getD ""

/-- The number of strings in the table, the empty string included. -/
def size (t : SymbolTable) : Nat := t.count

/-- Whether the table holds nothing but the empty string. -/
def isEmpty (t : SymbolTable) : Bool := t.count ≤ 1

/-- The strings that every table knows from the start: the names of constructors and of static
initializers, the descriptor without parameters and result, and the names of the standard loaders. -/
def predefined : List String :=
  ["<init>", "<clinit>", "()V", "Primordial", "Extension", "Application", "Source", "Synthetic"]

/-- The table of the empty string alone, which stands in the first slot of the first shard. -/
def blank : SymbolTable where
  shards := (Vector.replicate Symbol.shardCount Roster.empty).set 0 (Roster.empty.add "")
  count := 1

def new : SymbolTable := predefined.foldl append blank

/-- The tables that arise from a new one by interning strings. -/
inductive Reachable : SymbolTable → Prop where
  | new : Reachable new
  | intern {t t' : SymbolTable} {s : String} {symbol : Symbol} :
      Reachable t → t.intern s = .ok (symbol, t') → Reachable t'

section Append

variable (t : SymbolTable) (s r : String)

theorem shard_append (i : Fin Symbol.shardCount) :
    (t.append s).shards[i] = if i = shardOf s then (t.shardFor s).add s else t.shards[i] := by
  simp only [append, Fin.getElem_fin, Vector.getElem_set]
  by_cases h : shardOf s = i
  · rw [if_pos (by rw [h]), if_pos h.symm]
  · rw [if_neg fun e => h (Fin.ext e), if_neg fun e => h e.symm]

/-- Appending a string leaves the other shards alone. -/
theorem shardFor_append :
    (t.append s).shardFor r =
      if shardOf r = shardOf s then (t.shardFor s).add s else t.shardFor r :=
  shard_append t s (shardOf r)

end Append

end SymbolTable

/-- Computations that intern strings: they carry the table along and stop at a full shard. -/
abbrev Interning := StateT SymbolTable (Except CapacityError)

def internString (s : String) : Interning Symbol := fun t => t.intern s

end Lineage
