import Lineage.Handle
import Lineage.TypeId

/-!
# Ancestry

How a type names its direct ancestors depends on where the type comes from.  Source texts and compiled
types name them by identity, and the named types may be missing.  An analysis that makes up a type
refers by handle to types that are there already.
-/

namespace Lineage

/-- The direct ancestors of a type, as its representation records them. -/
inductive Ancestry where
  /-- For a type of a source text.  If it names no superclass, it inherits from the implicit root of
  its hierarchy. -/
  | source (superclass : Option TypeId) (interfaces : List TypeId)
  /-- For a compiled type.  If it names no superclass, it has none. -/
  | binary (superclass : Option TypeId) (interfaces : List TypeId)
  /-- For a type that an analysis puts together from types at hand. -/
  | synthetic (superclass : Option Handle) (interfaces : List Handle)
deriving DecidableEq

namespace Ancestry

/-- The representation that the ancestry comes from. -/
def representation : Ancestry → String
  | .source _ _ => "source"
  | .binary _ _ => "binary"
  | .synthetic _ _ => "synthetic"

/-- The handles that the ancestry refers to, the superclass before the interfaces. -/
def handles : Ancestry → List Handle
  | .synthetic superclass interfaces => superclass.toList ++ interfaces
  | _ => []

private def inspectParts (tag : String) (superclass : Option String) (interfaces : List String) :
    String :=
  Text.record tag
    [("superclass", Text.optional superclass), ("interfaces", Text.list interfaces)]

def inspect : Ancestry → String
  | .source s is => inspectParts "Source" (s.map (·.inspect)) (is.map (·.inspect))
  | .binary s is => inspectParts "Binary" (s.map (·.inspect)) (is.map (·.inspect))
  | .synthetic s is => inspectParts "Synthetic" (s.map (·.inspect)) (is.map (·.inspect))

end Ancestry

end Lineage
