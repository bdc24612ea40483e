import Lineage.Hierarchy.Member

/-!
# Queries

The questions that a hierarchy answers about a type, as data, and their answers.  A query mentions
members by name; the names are strings in a query as it is written (`Query String`) and symbols in
one that is put to a hierarchy (`Query Symbol`).  `Hierarchy.answer` answers from the types alone.
-/

namespace Lineage

/-- A question about a type, with member names in `ν`. -/
inductive Query (ν : Type) where
  | superclass (type : Handle)
  | interfaces (type : Handle)
  | chain (type : Handle)
  | chainInterfaces (type : Handle)
  | interfaceClosure (type : Handle)
  | inherits (type ancestor : Handle)
  | implements (type interface : Handle)
  | field (type : Handle) (name : ν)
  | method (type : Handle) (name descriptor : ν)
  | ownInstanceFields (type : Handle)
  | ownStaticFields (type : Handle)
  | ownMethods (type : Handle)
  | chainInstanceFields (type : Handle)
  | chainStaticFields (type : Handle)
  | chainFields (type : Handle)
  | chainMethods (type : Handle)
  | effectiveMethods (type : Handle)
deriving DecidableEq

/-- What a query is answered with. -/
inductive Answer where
  | handle (type : Option Handle)
  | handles (types : List Handle)
  | truth (value : Bool)
  | field (field : Option Field)
  | fields (fields : List Field)
  | method (method : Option Method)
  | methods (methods : List Method)
deriving DecidableEq

namespace Query

/-- The query for the static initializer that runs for a type: its own or the nearest inherited
one. -/
def staticInitializer (type : Handle) : Query String := .method type "<clinit>" "()V"

/-- The type that a query is about. -/
def subject {ν : Type} : Query ν → Handle
  | superclass c | interfaces c | chain c | chainInterfaces c | interfaceClosure c
  | inherits c _ | implements c _ | field c _ | method c _ _
  | ownInstanceFields c | ownStaticFields c | ownMethods c
  | chainInstanceFields c | chainStaticFields c | chainFields c | chainMethods c
  | effectiveMethods c => c

/-- A query with its names interned, in the order in which they are written. -/
def intern : Query String → Interning (Query Symbol)
  | superclass c => return superclass c
  | interfaces c => return interfaces c
  | chain c => return chain c
  | chainInterfaces c => return chainInterfaces c
  | interfaceClosure c => return interfaceClosure c
  | inherits c a => return inherits c a
  | implements c i => return implements c i
  | field c name => field c <$> internString name
  | method c name descriptor => do
    let name ← internString name
    let descriptor ← internString descriptor
    return method c name descriptor
  | ownInstanceFields c => return ownInstanceFields c
  | ownStaticFields c => return ownStaticFields c
  | ownMethods c => return ownMethods c
  | chainInstanceFields c => return chainInstanceFields c
  | chainStaticFields c => return chainStaticFields c
  | chainFields c => return chainFields c
  | chainMethods c => return chainMethods c
  | effectiveMethods c => return effectiveMethods c

end Query

/-- The answer that the types of a hierarchy give to a query. -/
def Hierarchy.answer (h : Hierarchy) : Query Symbol → Except ResolveError Answer
  | .superclass c => (h.superclass c).map .handle
  | .interfaces c => (h.interfaces c).map .handles
  | .chain c => (h.chain c).map .handles
  | .chainInterfaces c => (h.chainInterfaces c).map .handles
  | .interfaceClosure c => (h.interfaceClosure c).map .handles
  | .inherits c a => (h.inherits c a).map .truth
  | .implements c i => (h.implements c i).map .truth
  | .field c name => (h.findField c name).map .field
  | .method c name descriptor => (h.findMethod c ⟨name, descriptor⟩).map .method
  | .ownInstanceFields c => (h.ownInstanceFields c).map .fields
  | .ownStaticFields c => (h.ownStaticFields c).map .fields
  | .ownMethods c => (h.ownMethods c).map .methods
  | .chainInstanceFields c => (h.chainInstanceFields c).map .fields
  | .chainStaticFields c => (h.chainStaticFields c).map .fields
  | .chainFields c => (h.chainFields c).map .fields
  | .chainMethods c => (h.chainMethods c).map .methods
  | .effectiveMethods c => (h.effectiveMethods c).map .methods

end Lineage
