import Lineage.Member.Basic
import Lineage.Roster

/-!
# Member tables

The members that one type declares itself, in the order of their declaration.  Fields have different
names and methods different selectors; a field and a method never get in each other's way.  Members
inherited from other types are no part of the table.
-/

namespace Lineage

/-- The fields and the methods that one type declares. -/
structure Members where
  fieldRoster : Roster Field.name
  methodRoster : Roster Method.selector
deriving DecidableEq

namespace Members

def empty : Members := ⟨.empty, .empty⟩

section Lookup

variable (t : Members)

def fields : List Field := t.fieldRoster.toList

def methods : List Method := t.methodRoster.toList

def field? (name : Symbol) : Option Field := t.fieldRoster.find? name

def method? (selector : Selector) : Option Method := t.methodRoster.find? selector

def hasField (name : Symbol) : Bool := t.fieldRoster.contains name

def hasMethod (selector : Selector) : Bool := t.methodRoster.contains selector

def instanceFields : List Field := t.fields.filter Field.isInstance

def staticFields : List Field := t.fields.filter Field.isStatic

def isEmpty : Bool := t.fields.isEmpty && t.methods.isEmpty

end Lookup

section Change

/-- The table with one more field, or the field itself if its name is taken. -/
def addField (t : Members) (f : Field) : Except Field Members :=
  (t.fieldRoster.insert f).map fun r => { t with fieldRoster := r }

/-- The table with one more method, or the method itself if its selector is taken. -/
def addMethod (t : Members) (m : Method) : Except Method Members :=
  (t.methodRoster.insert m).map fun r => { t with methodRoster := r }

/-- Every member with its declaring type recorded. -/
def withOwner (owner : Handle) (t : Members) : Members where
  fieldRoster := t.fieldRoster.map (·.withOwner owner) fun _ => rfl
  methodRoster := t.methodRoster.map (·.withOwner owner) fun _ => rfl

@[simp] theorem fields_withOwner (owner : Handle) (t : Members) :
    (t.withOwner owner).fields = t.fields.map (·.withOwner owner) :=
  Roster.toList_map t.fieldRoster (Field.withOwner owner) fun _ => rfl

@[simp] theorem methods_withOwner (owner : Handle) (t : Members) :
    (t.withOwner owner).methods = t.methods.map (·.withOwner owner) :=
  Roster.toList_map t.methodRoster (Method.withOwner owner) fun _ => rfl

end Change

end Members

end Lineage
