/-!
# Orders read off from keys

A structure is ordered by one key, or by a first key and then a second one.  If the keys tell any
two values apart, then such an order says "equal" of equal values only, which is what a search tree
over the structure needs.
-/

namespace Lineage.Order

section Keys

variable {α β γ : Type} [Ord β] [Ord γ]

/-- An order by one key that tells values apart. -/
theorem lawfulEqOn [Std.LawfulEqOrd β] {key : α → β} (h : ∀ a b, key a = key b → a = b) :
    Std.LawfulEqCmp (compareOn key) where
  compare_self := Std.ReflOrd.compare_self
  eq_of_compare e := h _ _ (Std.LawfulEqOrd.eq_of_compare e)

/-- An order by two keys that tell values apart together. -/
theorem lawfulEqLex [Std.LawfulEqOrd β] [Std.LawfulEqOrd γ] {first : α → β} {second : α → γ}
    (h : ∀ a b, first a = first b → second a = second b → a = b) :
    Std.LawfulEqCmp (compareLex (compareOn first) (compareOn second)) where
  compare_self {a} := by
    simp [compareLex, compareOn, Std.ReflOrd.compare_self]
  eq_of_compare e := by
    rw [compareLex_eq_eq] at e
    exact h _ _ (Std.LawfulEqOrd.eq_of_compare e.1) (Std.LawfulEqOrd.eq_of_compare e.2)

end Keys

end Lineage.Order
