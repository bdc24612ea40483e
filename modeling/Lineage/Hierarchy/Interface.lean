import Lineage.Hierarchy.Worklist

/-!
# Interfaces of a type

The interfaces that a type and its superclasses declare, and their closure under the interfaces that
these extend in turn.  Each list is a function of an earlier one: the interfaces come from the chain
(`interfacesAlong`) and the closure from the interfaces (`closureFrom`).
-/

namespace Lineage.Hierarchy

variable (h : Hierarchy)

/-- The direct interfaces of the types of a chain, each at its first mention. -/
def interfacesAlong (chain : List Handle) : Except ResolveError (List Handle) := do
  let declared ← chain.mapM h.interfaces
  return declared.flatten.eraseDups

/-- Some types, followed by all that they extend, directly or not, breadth first. -/
def closureFrom (seed : List Handle) : Except ResolveError (List Handle) :=
  (Worklist.ofSeed seed).saturate h

/-- The direct interfaces of a type and of its superclasses, nearest first. -/
def chainInterfaces (c : Handle) : Except ResolveError (List Handle) := do
  h.interfacesAlong (← h.chain c)

/-- The interfaces of a type and of its superclasses, and all that these extend. -/
def interfaceClosure (c : Handle) : Except ResolveError (List Handle) := do
  h.closureFrom (← h.chainInterfaces c)

/-- Whether a type implements an interface, by itself or through an ancestor. -/
def implements (c interface : Handle) : Except ResolveError Bool :=
  (h.interfaceClosure c).map (·.contains interface)

end Lineage.Hierarchy
