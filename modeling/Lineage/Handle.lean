import Lineage.Order

/-!
# Handles

A handle names a type of a hierarchy by its position.  Handles are given out in order, starting from
zero, and never again, so a handle stays good for as long as its hierarchy.
-/

namespace Lineage

/-- The position of a type in a hierarchy. -/
structure Handle where
  number : UInt32
deriving DecidableEq

namespace Handle

/-- The largest handle, which no hierarchy gives out.  A member carries it as long as its declaring
type is not in a hierarchy. -/
def unassigned : Handle := ⟨0xFFFFFFFF⟩

def isAssigned (c : Handle) : Bool := c != unassigned

def index (c : Handle) : Nat := c.number.toNat

def ofIndex (i : Nat) : Handle := ⟨UInt32.ofNat i⟩

def inspect (c : Handle) : String :=
  if c.isAssigned then "ClassIdx(" ++ toString c.number ++ ")" else "ClassIdx::UNASSIGNED"

@[simp] theorem ofIndex_index (c : Handle) : ofIndex c.index = c := by
  simp [ofIndex, index]

theorem index_ofIndex {i : Nat} (h : i < UInt32.size) : (ofIndex i).index = i := by
  simp only [UInt32.size] at h
  simp only [ofIndex, index, UInt32.toNat_ofNat']
  omega

instance : Ord Handle := ⟨compareOn number⟩

instance : Std.TransOrd Handle :=
  inferInstanceAs (Std.TransCmp (compareOn number))

instance : Std.LawfulEqOrd Handle :=
  Order.lawfulEqOn fun ⟨_⟩ ⟨_⟩ => congrArg mk

end Handle

end Lineage
