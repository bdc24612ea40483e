import Lineage.Hierarchy.Growth
import Lineage.Memo.Query

/-!
# Scopes

A scope is a hierarchy together with the memo of its answers.  A type that is added may supply a
missing ancestor, so the memo forgets its answers with each type that is added; a declaration that is
refused changes nothing.  `run` carries out a list of operations and gives their outcomes in order.
-/

namespace Lineage

/-- A hierarchy and what is remembered of it. -/
structure Scope where
  hierarchy : Hierarchy
  memo : Memo

/-- What can be done with a scope: add a type, or ask about one. -/
inductive Operation where
  | add (declaration : Declaration)
  | ask (query : Query Symbol)

/-- What comes of an operation. -/
inductive Outcome where
  | added (result : Except DeclareError Handle)
  | answered (result : Except ResolveError Answer)

namespace Scope

def new (implicitRoot : Option TypeId) (memoize : Bool) : Scope :=
  ⟨.empty implicitRoot, .new memoize⟩

/-- Add a type.  If it is accepted, the memo starts over. -/
def add (s : Scope) (d : Declaration) : Except DeclareError Handle × Scope :=
  match s.hierarchy.add d with
  | .ok (c, hierarchy) => (.ok c, ⟨hierarchy, s.memo.clear⟩)
  | .error e => (.error e, s)

def ask (s : Scope) (q : Query Symbol) : Except ResolveError Answer × Scope :=
  let (answer, memo) := (Recall.answer s.hierarchy q).run s.memo
  (answer, { s with memo })

def perform (s : Scope) : Operation → Outcome × Scope
  | .add d => (.added (s.add d).1, (s.add d).2)
  | .ask q => (.answered (s.ask q).1, (s.ask q).2)

def run (s : Scope) : List Operation → List Outcome × Scope
  | [] => ([], s)
  | o :: rest =>
    let (outcome, next) := s.perform o
    let (outcomes, last) := next.run rest
    (outcome :: outcomes, last)

end Scope

end Lineage
