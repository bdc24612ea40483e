import Lineage.Declaration

/-!
# Hierarchies

A hierarchy holds the types of one loading scope.  Each type that is added gets the next handle and
keeps it; nothing is ever changed or removed (`Lineage.Hierarchy.Growth`).  Edges between types are not
stored: they are found from the ancestries of the types when a question asks for them, so an ancestor
that is named may arrive later, or never.
-/

namespace Lineage

/-- The types of a loading scope, known by identity, and the identity of the type that source types
without a superclass inherit from. -/
structure Hierarchy where
  nodes : Roster TypeNode.id
  implicitRoot : Option TypeId
deriving DecidableEq

/-- A position at which a hierarchy has no type. -/
structure OutOfBounds where
  size : Nat
  index : Nat
deriving DecidableEq

def OutOfBounds.message (e : OutOfBounds) : String :=
  "index out of bounds: the len is " ++ toString e.size ++ " but the index is " ++ toString e.index

namespace Hierarchy

def empty (implicitRoot : Option TypeId) : Hierarchy := ⟨.empty, implicitRoot⟩

section Contents

variable (h : Hierarchy)

/-- The number of types, which is also the position of the next handle. -/
def size : Nat := h.nodes.size

def types : List TypeNode := h.nodes.toList

/-- The handles given out so far, in order. -/
def handles : List Handle := (List.range h.size).map Handle.ofIndex

/-- The type behind a handle. -/
def node? (c : Handle) : Option TypeNode := h.nodes.at? c.index

/-- The type behind a handle that is known to be good. -/
def node (c : Handle) : Except OutOfBounds TypeNode :=
  match h.node? c with
  | some node => .ok node
  | none => .error ⟨h.size, c.index⟩

/-- The handle of the type with a given identity. -/
def find? (id : TypeId) : Option Handle := (h.nodes.place? id).map Handle.ofIndex

def contains (id : TypeId) : Bool := h.nodes.contains id

/-- The implicit root, if there is one and its type is there. -/
def root? : Option Handle := h.implicitRoot.bind h.find?

end Contents

theorem find?_empty (implicitRoot : Option TypeId) (id : TypeId) :
    (empty implicitRoot).find? id = none := by
  simp [find?, empty, Roster.place?, Roster.empty]

end Hierarchy

end Lineage
