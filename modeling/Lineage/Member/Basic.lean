import Lineage.Handle
import Lineage.Modifiers
import Lineage.Provenance.Position
import Lineage.Selector

/-!
# Fields and methods

A field is known in its type by its name, a method by its selector.  Both carry the handle of the
type that declares them, so equal declarations in two types are different members.  The handle is
set when the type enters a hierarchy (`withOwner`).
-/

namespace Lineage

structure Field where
  name : Symbol
  descriptor : Symbol
  modifiers : Modifiers
  declaring : Handle
  position : Option Position
deriving DecidableEq

namespace Field

def new (name descriptor : Symbol) (modifiers : Modifiers) (position : Option Position) : Field :=
  ⟨name, descriptor, modifiers, .unassigned, position⟩

/-- A field is either static or an instance field. -/
def isStatic (f : Field) : Bool := f.modifiers.isStatic

def isInstance (f : Field) : Bool := !f.isStatic

/-- The field with its declaring type recorded. -/
def withOwner (owner : Handle) (f : Field) : Field := { f with declaring := owner }

def inspect (f : Field) : String :=
  Text.record "FieldDef" [("name", f.name.inspect), ("descriptor", f.descriptor.inspect),
    ("modifiers", f.modifiers.inspect), ("declaring", f.declaring.inspect),
    ("position", Text.optional (f.position.map (·.inspect)))]

end Field

structure Method where
  selector : Selector
  modifiers : Modifiers
  declaring : Handle
  position : Option Position
deriving DecidableEq

namespace Method

def new (selector : Selector) (modifiers : Modifiers) (position : Option Position) : Method :=
  ⟨selector, modifiers, .unassigned, position⟩

def name (m : Method) : Symbol := m.selector.name

def isStatic (m : Method) : Bool := m.modifiers.isStatic

def isAbstract (m : Method) : Bool := m.modifiers.isAbstract

/-- Whether the method is the static initializer, given the selector of static initializers. -/
def isInitializer (m : Method) (initializer : Selector) : Bool := m.selector == initializer

/-- The method with its declaring type recorded. -/
def withOwner (owner : Handle) (m : Method) : Method := { m with declaring := owner }

def inspect (m : Method) : String :=
  Text.record "MethodDef" [("selector", m.selector.inspect), ("modifiers", m.modifiers.inspect),
    ("declaring", m.declaring.inspect), ("position", Text.optional (m.position.map (·.inspect)))]

end Method

/-- A member of a type: a field or a method. -/
inductive Member where
  | field (f : Field)
  | method (m : Method)
deriving DecidableEq

end Lineage
