import Lineage.Hierarchy.Basic

/-!
# Failures of resolution

Why a question about a type has no answer: an ancestor is named but not there, the superclasses run
in a circle, or the handle is foreign.  A member that is declared nowhere is no failure.
-/

namespace Lineage

/-- Why the ancestors of a type could not be determined. -/
inductive ResolveError where
  /-- The named superclass is not in the hierarchy. -/
  | missingSuperclass (type : Handle) (missing : TypeId)
  /-- A named direct interface is not in the hierarchy. -/
  | missingInterface (type : Handle) (missing : TypeId)
  /-- The superclasses of the type lead back to it. -/
  | cycle (type : Handle)
  /-- The handle was not given out by the hierarchy. -/
  | unknownType (type : Handle)
deriving DecidableEq

namespace ResolveError

def type : ResolveError → Handle
  | .missingSuperclass c _ => c
  | .missingInterface c _ => c
  | .cycle c => c
  | .unknownType c => c

/-- The message of a failure, with types by handle. -/
def message : ResolveError → String
  | .missingSuperclass c missing =>
    "superclass " ++ missing.inspect ++ " of " ++ c.inspect ++ " is not in the hierarchy"
  | .missingInterface c missing =>
    "interface " ++ missing.inspect ++ " of " ++ c.inspect ++ " is not in the hierarchy"
  | .cycle c => "inheritance cycle through " ++ c.inspect
  | .unknownType c => c.inspect ++ " does not belong to this hierarchy"

/-- The message of a failure, with types by name.  A foreign handle has no name. -/
def explain (h : Hierarchy) (t : SymbolTable) : ResolveError → String
  | .missingSuperclass c missing =>
    "cannot resolve superclass " ++ missing.display t ++ " of " ++ nameOf c
  | .missingInterface c missing =>
    "cannot resolve interface " ++ missing.display t ++ " of " ++ nameOf c
  | .cycle c => nameOf c ++ " is its own ancestor"
  | .unknownType c => c.inspect ++ " does not belong to this hierarchy"
where
  /-- The written form of a type, or the handle of one that is not there. -/
  nameOf (c : Handle) : String :=
    match h.node? c with
    | some node => node.id.display t
    | none => c.inspect

end ResolveError

end Lineage
