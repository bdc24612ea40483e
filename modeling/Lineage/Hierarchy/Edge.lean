import Lineage.Hierarchy.Error

/-!
# Direct ancestors

The edges of a hierarchy, found on demand: at most one superclass for a type, and a list of direct
interfaces without repetition.
-/

namespace Lineage

namespace Hierarchy

variable (h : Hierarchy)

/-- The type behind a handle, as a question asks for it. -/
def resolve (c : Handle) : Except ResolveError TypeNode :=
  match h.node? c with
  | some node => .ok node
  | none => .error (.unknownType c)

/-- The identity under which the superclass of a type is looked up.  A source type without a
superclass of its own inherits from the implicit root, unless it is that root. -/
def superclassName (node : TypeNode) : Option TypeId :=
  match node.ancestry with
  | .source (some id) _ => some id
  | .source none _ => h.implicitRoot.filter (· != node.id)
  | .binary superclass _ => superclass
  | .synthetic _ _ => none

/-- The superclass of a type; none for a root. -/
def superclass (c : Handle) : Except ResolveError (Option Handle) := do
  let node ← h.resolve c
  match node.ancestry with
  | .synthetic superclass _ => return superclass
  | _ =>
    match h.superclassName node with
    | none => return none
    | some id =>
      match h.find? id with
      | some parent => return some parent
      | none => throw (.missingSuperclass c id)

/-- The handle of an interface that a type names. -/
def namedInterface (c : Handle) (id : TypeId) : Except ResolveError Handle :=
  match h.find? id with
  | some parent => .ok parent
  | none => .error (.missingInterface c id)

/-- The interfaces that a type names, in the order of their declaration. -/
def namedInterfaces (c : Handle) : Ancestry → Except ResolveError (List Handle)
  | .synthetic _ interfaces => .ok interfaces
  | .source _ interfaces => interfaces.mapM (h.namedInterface c)
  | .binary _ interfaces => interfaces.mapM (h.namedInterface c)

/-- The direct interfaces of a type: the first mention of each, in the order of declaration. -/
def interfaces (c : Handle) : Except ResolveError (List Handle) := do
  let node ← h.resolve c
  let interfaces ← h.namedInterfaces c node.ancestry
  return interfaces.eraseDups

end Hierarchy

end Lineage
