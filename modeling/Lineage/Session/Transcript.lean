import Lineage.Session

/-!
# Transcripts

What a session tells somebody who knows strings and handles but sees no symbols: outcomes with strings in
place of symbols, each failure with its explanation, the types that are found under two strings, and the
walks along the superclasses.
-/

namespace Lineage

/-- An identity in strings. -/
def TypeId.view (t : SymbolTable) (id : TypeId) : WrittenType :=
  ⟨t.text id.loader.name, t.text id.name⟩

/-- Why a type could not be declared, in strings. -/
inductive DeclareErrorView where
  | duplicateType (id : WrittenType) (existing : Handle)
  | duplicateField (id : WrittenType) (name : String)
  | duplicateMethod (id : WrittenType) (name descriptor : String)
  | unknownAncestor (id : WrittenType) (ancestor : Handle)
  | tooManyTypes
deriving DecidableEq

def DeclareError.view (t : SymbolTable) : DeclareError → DeclareErrorView
  | .duplicateType id existing => .duplicateType (id.view t) existing
  | .duplicateField id name => .duplicateField (id.view t) (t.text name)
  | .duplicateMethod id selector =>
    .duplicateMethod (id.view t) (t.text selector.name) (t.text selector.descriptor)
  | .unknownAncestor id ancestor => .unknownAncestor (id.view t) ancestor
  | .tooManyTypes => .tooManyTypes

/-- Why the ancestors of a type could not be determined, in strings. -/
inductive ResolveErrorView where
  | missingSuperclass (type : Handle) (missing : WrittenType)
  | missingInterface (type : Handle) (missing : WrittenType)
  | cycle (type : Handle)
  | unknownType (type : Handle)
deriving DecidableEq

def ResolveError.view (t : SymbolTable) : ResolveError → ResolveErrorView
  | .missingSuperclass c missing => .missingSuperclass c (missing.view t)
  | .missingInterface c missing => .missingInterface c (missing.view t)
  | .cycle c => .cycle c
  | .unknownType c => .unknownType c

/-- A failure together with its explanation. -/
structure FailureView where
  reason : ResolveErrorView
  explanation : String
deriving DecidableEq

/-- What can be done with a session: carry out a request, look a type up under two strings or as the
implicit root, or take some steps of a walk along the superclasses. -/
inductive Action where
  | request (request : Request)
  | lookup (type : WrittenType)
  | root
  | walk (type : Handle) (steps : Nat)
deriving DecidableEq

/-- What an action shows. -/
inductive ActionView where
  | added (result : Except DeclareErrorView Handle)
  | answered (result : Except FailureView AnswerView)
  | found (type : Option Handle)
  | walked (items : List (Option (Except FailureView Handle)))

namespace Session

/-- A session on a new scope, with the strings that the table knows already. -/
def start (symbols : SymbolTable) (implicitRoot : Option WrittenType) (memoize : Bool) :
    Except CapacityError Session := do
  let (scope, symbols) ← (Scope.ofWritten implicitRoot memoize).run symbols
  return ⟨symbols, scope⟩

section Shown

variable (s : Session)

def failureView (e : ResolveError) : FailureView :=
  ⟨e.view s.symbols, e.explain s.scope.hierarchy s.symbols⟩

def outcomeView : Outcome → ActionView
  | .added result => .added (result.mapError (·.view s.symbols))
  | .answered result => .answered ((result.mapError s.failureView).map (·.view s.symbols))

/-- The first steps of a walk along the superclasses. -/
def walk (c : Handle) (steps : Nat) : List (Option (Except FailureView Handle)) :=
  ((Ascent.start c).take s.scope.hierarchy steps).map (·.map (·.mapError s.failureView))

/-- The type that is found under two strings. -/
def lookup (w : WrittenType) : Except CapacityError (Option Handle × Session) := do
  let (id, symbols) ← w.intern.run s.symbols
  return (s.scope.hierarchy.find? id, { s with symbols })

end Shown

/-- What an action shows, with the symbols and the types that there are just after it. -/
def act (s : Session) : Action → Except CapacityError (ActionView × Session)
  | .request request => do
    let (outcome, next) ← s.perform request
    return (next.outcomeView outcome, next)
  | .lookup type => do
    let (found, next) ← s.lookup type
    return (.found found, next)
  | .root => return (.found s.scope.hierarchy.root?, s)
  | .walk c steps => return (.walked (s.walk c steps), s)

/-- Actions one after the other: what each of them shows, and the session at the end. -/
def transcript (s : Session) : List Action → Except CapacityError (List ActionView × Session)
  | [] => return ([], s)
  | action :: rest => do
    let (view, next) ← s.act action
    let (views, last) ← next.transcript rest
    return (view :: views, last)

end Session

end Lineage
