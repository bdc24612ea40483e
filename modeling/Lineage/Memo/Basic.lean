import Lineage.Hierarchy.Error
import Std.Data.ExtTreeMap

/-!
# Memos

A memo remembers the answers to the three transitive questions about types, failures included, and
counts how often an answer was remembered and how often it had to be found.  A memo that is switched
off remembers and counts nothing.
-/

namespace Lineage

/-- The questions whose answers are remembered. -/
inductive Transitive where
  | chain
  | chainInterfaces
  | interfaceClosure
deriving DecidableEq

def Transitive.rank : Transitive → Nat
  | chain => 0
  | chainInterfaces => 1
  | interfaceClosure => 2

/-- A question about one type. -/
structure MemoKey where
  type : Handle
  question : Transitive
deriving DecidableEq

namespace MemoKey

def rank (k : MemoKey) : Nat := k.question.rank

instance : Ord MemoKey := ⟨compareLex (compareOn type) (compareOn rank)⟩

instance : Std.TransOrd MemoKey :=
  inferInstanceAs (Std.TransCmp (compareLex (compareOn type) (compareOn rank)))

instance : Std.LawfulEqOrd MemoKey :=
  Order.lawfulEqLex fun ⟨_, p⟩ ⟨_, q⟩ h k => by
    cases p <;> cases q <;> first | exact congrArg (mk · _) h | cases k

end MemoKey

/-- The answer to a transitive question. -/
abbrev Reply := Except ResolveError (List Handle)

/-- Answers that were found before, and how often they were of use. -/
structure Memo where
  enabled : Bool
  entries : Std.ExtTreeMap MemoKey Reply
  hits : Nat
  misses : Nat

namespace Memo

/-- A memo without answers, switched on or off. -/
def new (enabled : Bool) : Memo := ⟨enabled, ∅, 0, 0⟩

/-- The memo of a hierarchy that was not told otherwise is switched on. -/
instance : Inhabited Memo := ⟨new true⟩

def size (m : Memo) : Nat := m.entries.size

def hit (m : Memo) : Memo := { m with hits := m.hits + 1 }

def miss (m : Memo) : Memo := { m with misses := m.misses + 1 }

def store (m : Memo) (k : MemoKey) (r : Reply) : Memo := { m with entries := m.entries.insert k r }

/-- Forget all answers.  The counters stay as they are. -/
def clear (m : Memo) : Memo := { m with entries := ∅ }

end Memo

/-- Computations that consult a memo. -/
abbrev Recall := StateM Memo

/-- The answer under a key: the remembered one, or else the one that `find` comes up with, which is
remembered then.  The memo is free for use by `find`. -/
def remember (k : MemoKey) (find : Recall Reply) : Recall Reply := do
  let memo ← get
  if memo.enabled then
    match memo.entries[k]? with
    | some reply =>
      set memo.hit
      return reply
    | none =>
      set memo.miss
      let reply ← find
      modify (·.store k reply)
      return reply
  else
    find

section Remember

variable {k : MemoKey} {find : Recall Reply} {m : Memo}

theorem remember_of_disabled (h : m.enabled = false) : (remember k find).run m = find.run m := by
  simp [remember, h]

theorem remember_of_hit {r : Reply} (h : m.enabled = true) (hr : m.entries[k]? = some r) :
    (remember k find).run m = (r, m.hit) := by
  simp only [remember, StateT.run_bind, StateT.run_get, pure_bind, h, hr, if_true]
  rfl

theorem remember_of_miss {r : Reply} {m' : Memo} (h : m.enabled = true)
    (hr : m.entries[k]? = none) (hf : find.run m.miss = (r, m')) :
    (remember k find).run m = (r, m'.store k r) := by
  simp only [remember, StateT.run_bind, StateT.run_get, StateT.run_set, pure_bind, h, hr, hf, if_true]
  rfl

end Remember

end Lineage
