import Lineage.Declaration

/-!
# Declarations as they are written

Declarations with strings in place of symbols.  Interning one goes through it from left to right:
the type, its superclass, its interfaces, its position, then the members.  A member is declared as
soon as its strings are interned, so the members after a refused one are never looked at.
-/

namespace Lineage

/-- The identity of a type, in strings. -/
structure WrittenType where
  loader : String
  name : String
deriving DecidableEq

def WrittenType.intern (w : WrittenType) : Interning TypeId := do
  let loader ← Loader.named w.loader
  TypeId.named loader w.name

/-- A position whose url is a string. -/
structure WrittenPosition where
  url : String
  span : Span
  line : UInt32
  column : UInt32
deriving DecidableEq

namespace WrittenPosition

/-- A position of which only the file is known. -/
def ofUrl (url : String) : WrittenPosition := ⟨url, .dummy, 0, 0⟩

def intern (w : WrittenPosition) : Interning Position := do
  let url ← internString w.url
  return ⟨url, w.span, w.line, w.column⟩

end WrittenPosition

/-- The direct ancestors of a type, in strings or by handle. -/
inductive WrittenAncestry where
  | source (superclass : Option WrittenType) (interfaces : List WrittenType)
  | binary (superclass : Option WrittenType) (interfaces : List WrittenType)
  | synthetic (superclass : Option Handle) (interfaces : List Handle)
deriving DecidableEq

def WrittenAncestry.intern : WrittenAncestry → Interning Ancestry
  | source s is => do return .source (← s.mapM (·.intern)) (← is.mapM (·.intern))
  | binary s is => do return .binary (← s.mapM (·.intern)) (← is.mapM (·.intern))
  | synthetic s is => return .synthetic s is

/-- A member, in strings. -/
inductive WrittenMember where
  | field (name descriptor : String) (modifiers : Modifiers) (position : Option WrittenPosition)
  | method (name descriptor : String) (modifiers : Modifiers) (position : Option WrittenPosition)
deriving DecidableEq

def WrittenMember.intern : WrittenMember → Interning Member
  | field name descriptor modifiers position => do
    let name ← internString name
    let descriptor ← internString descriptor
    let position ← position.mapM (·.intern)
    return .field (.new name descriptor modifiers position)
  | method name descriptor modifiers position => do
    let selector ← Selector.named name descriptor
    let position ← position.mapM (·.intern)
    return .method (.new selector modifiers position)

/-- A type with its members, in strings. -/
structure WrittenDeclaration where
  id : WrittenType
  ancestry : WrittenAncestry
  modifiers : Modifiers
  position : Option WrittenPosition
  members : List WrittenMember
deriving DecidableEq

/-- Declare written members one at a time, up to the first that is refused. -/
def Declaration.addWritten (d : Declaration) :
    List WrittenMember → Interning (Except DeclareError Declaration)
  | [] => return .ok d
  | m :: rest => do
    match d.add (← m.intern) with
    | .ok d => d.addWritten rest
    | .error e => return .error e

/-- The declaration that is written, or the first member that is refused. -/
def WrittenDeclaration.intern (w : WrittenDeclaration) :
    Interning (Except DeclareError Declaration) := do
  let id ← w.id.intern
  let ancestry ← w.ancestry.intern
  let position ← w.position.mapM (·.intern)
  Declaration.addWritten ⟨id, ancestry, w.modifiers, position, .empty⟩ w.members

end Lineage
