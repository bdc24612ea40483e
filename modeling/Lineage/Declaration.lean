import Lineage.Ancestry
import Lineage.Member.Table

/-!
# Declarations and types

A declaration is a type on its way into a hierarchy; members are declared on it one at a time, and
a repeated name or selector is refused.  When a hierarchy accepts the declaration it becomes a
`TypeNode`: the handle is settled and recorded in every member.
-/

namespace Lineage

/-- Why a type could not be declared. -/
inductive DeclareError where
  | duplicateType (id : TypeId) (existing : Handle)
  | duplicateField (id : TypeId) (name : Symbol)
  | duplicateMethod (id : TypeId) (selector : Selector)
  /-- The ancestry refers to a handle that the hierarchy has not given out. -/
  | unknownAncestor (id : TypeId) (ancestor : Handle)
  | tooManyTypes
deriving DecidableEq

def DeclareError.message : DeclareError → String
  | .duplicateType id existing =>
    "type " ++ id.inspect ++ " is already declared as " ++ existing.inspect
  | .duplicateField id name => "field " ++ name.inspect ++ " is declared twice in " ++ id.inspect
  | .duplicateMethod id selector =>
    "method " ++ selector.inspect ++ " is declared twice in " ++ id.inspect
  | .unknownAncestor id ancestor =>
    id.inspect ++ " refers to unknown ancestor " ++ ancestor.inspect
  | .tooManyTypes =>
    "hierarchy cannot hold more than " ++ toString (Handle.unassigned.index - 1) ++ " types"

/-- A class or interface of a hierarchy. -/
structure TypeNode where
  handle : Handle
  id : TypeId
  modifiers : Modifiers
  position : Option Position
  members : Members
  ancestry : Ancestry
deriving DecidableEq

namespace TypeNode

/-- Every type of a hierarchy is a reference type. -/
def isReference (_ : TypeNode) : Bool := true

/-- Array types have no node. -/
def isArray (_ : TypeNode) : Bool := false

end TypeNode

/-- A type that is not in a hierarchy yet. -/
structure Declaration where
  id : TypeId
  ancestry : Ancestry
  modifiers : Modifiers
  position : Option Position
  members : Members
deriving DecidableEq

namespace Declaration

/-- A declaration without modifiers, position and members. -/
def new (id : TypeId) (ancestry : Ancestry) : Declaration := ⟨id, ancestry, .empty, none, .empty⟩

def addField (d : Declaration) (f : Field) : Except DeclareError Declaration :=
  match d.members.addField f with
  | .ok members => .ok { d with members }
  | .error refused => .error (.duplicateField d.id refused.name)

def addMethod (d : Declaration) (m : Method) : Except DeclareError Declaration :=
  match d.members.addMethod m with
  | .ok members => .ok { d with members }
  | .error refused => .error (.duplicateMethod d.id refused.selector)

def add (d : Declaration) : Member → Except DeclareError Declaration
  | .field f => d.addField f
  | .method m => d.addMethod m

/-- Declare members in order, up to the first that is refused. -/
def addAll (d : Declaration) (members : List Member) : Except DeclareError Declaration :=
  members.foldlM add d

/-- The type that the declaration becomes under a handle. -/
def settle (d : Declaration) (handle : Handle) : TypeNode where
  handle := handle
  id := d.id
  modifiers := d.modifiers
  position := d.position
  members := d.members.withOwner handle
  ancestry := d.ancestry

end Declaration

end Lineage
