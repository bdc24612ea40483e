import Lineage.Hierarchy.Interface

/-!
# Members of a type

The member that an access finds is the nearest declaration on the superclass chain: a declaration in
a subtype hides all those above it.  The unions along the chain keep what is hidden; `effectiveMethods`
is the view without it.
-/

namespace Lineage.Hierarchy

variable (h : Hierarchy)

/-- The members that a type declares itself; none for a foreign handle. -/
def ownMembers (c : Handle) : Members :=
  match h.node? c with
  | some node => node.members
  | none => .empty

section OwnMembers

variable {h} {c : Handle}

theorem ownMembers_of_some {node : TypeNode} (e : h.node? c = some node) :
    h.ownMembers c = node.members := by
  rw [ownMembers, e]

theorem ownMembers_of_none (e : h.node? c = none) : h.ownMembers c = .empty := by
  rw [ownMembers, e]

end OwnMembers

section Nearest

/-- The nearest field of a given name, from a type upwards, static or not. -/
def findField (c : Handle) (name : Symbol) : Except ResolveError (Option Field) :=
  (Ascent.start c).search h fun s => (h.ownMembers s).field? name

/-- The nearest method with a given selector, from a type upwards. -/
def findMethod (c : Handle) (selector : Selector) : Except ResolveError (Option Method) :=
  (Ascent.start c).search h fun s => (h.ownMembers s).method? selector

end Nearest

section Declared

def ownInstanceFields (c : Handle) : Except ResolveError (List Field) :=
  (h.resolve c).map (·.members.instanceFields)

def ownStaticFields (c : Handle) : Except ResolveError (List Field) :=
  (h.resolve c).map (·.members.staticFields)

def ownMethods (c : Handle) : Except ResolveError (List Method) :=
  (h.resolve c).map (·.members.methods)

end Declared

section Unions

def instanceFieldsAlong (chain : List Handle) : List Field :=
  chain.flatMap fun s => (h.ownMembers s).instanceFields

def staticFieldsAlong (chain : List Handle) : List Field :=
  chain.flatMap fun s => (h.ownMembers s).staticFields

def methodsAlong (chain : List Handle) : List Method :=
  chain.flatMap fun s => (h.ownMembers s).methods

/-- The instance fields of a type and of its superclasses, nearest first. -/
def chainInstanceFields (c : Handle) : Except ResolveError (List Field) :=
  (h.chain c).map h.instanceFieldsAlong

/-- The static fields of a type and of its superclasses, nearest first. -/
def chainStaticFields (c : Handle) : Except ResolveError (List Field) :=
  (h.chain c).map h.staticFieldsAlong

/-- The instance fields of a chain, then its static fields. -/
def chainFields (c : Handle) : Except ResolveError (List Field) := do
  let instanceFields ← h.chainInstanceFields c
  let staticFields ← h.chainStaticFields c
  return instanceFields ++ staticFields

/-- The methods of a type and of its superclasses, nearest first.  A method that is overridden is
listed along with the one that overrides it. -/
def chainMethods (c : Handle) : Except ResolveError (List Method) :=
  (h.chain c).map h.methodsAlong

end Unions

/-- The first method of each selector. -/
def firstPerSelector (methods : List Method) : List Method :=
  methods.eraseDupsBy fun m n => m.selector == n.selector

/-- The methods of a type as an access sees them: for each selector the nearest declaration. -/
def effectiveMethods (c : Handle) : Except ResolveError (List Method) :=
  (h.chainMethods c).map firstPerSelector

end Lineage.Hierarchy
