import Lineage.Symbol.Table

/-!
# Selectors

A method is identified within its type by its selector: a name and a descriptor.  Methods of one
name with different descriptors are overloads; the same selector in a subtype overrides.
-/

namespace Lineage

/-- The identity of a method within a type. -/
structure Selector where
  name : Symbol
  descriptor : Symbol
deriving DecidableEq

namespace Selector

/-- The selector with a given name and descriptor, interned in this order. -/
def named (name descriptor : String) : Interning Selector := do
  let name ← internString name
  let descriptor ← internString descriptor
  return ⟨name, descriptor⟩

/-- The selector of static initializers, `<clinit>()V`. -/
def staticInitializer : Interning Selector := named "<clinit>" "()V"

/-- The selector of the constructor without arguments, `<init>()V`. -/
def constructor : Interning Selector := named "<init>" "()V"

/-- The written form of a selector: the name and the descriptor, joined. -/
def render (t : SymbolTable) (s : Selector) : String :=
  t.text s.name ++ t.text s.descriptor

def inspect (s : Selector) : String :=
  Text.record "Selector" [("name", s.name.inspect), ("descriptor", s.descriptor.inspect)]

instance : Ord Selector := ⟨compareLex (compareOn name) (compareOn descriptor)⟩

instance : Std.TransOrd Selector :=
  inferInstanceAs (Std.TransCmp (compareLex (compareOn name) (compareOn descriptor)))

instance : Std.LawfulEqOrd Selector :=
  Order.lawfulEqLex fun ⟨_, _⟩ ⟨_, _⟩ h k => congr (congrArg mk h) k

end Selector

end Lineage
