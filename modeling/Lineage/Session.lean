import Lineage.Scope
import Lineage.Session.View
import Lineage.Session.Written

/-!
# Sessions

A session works on a scope in strings: requests are interned into the symbol table of the session and
carried out on its scope.  A declaration with a refused member never reaches the scope; the strings
interned on the way to that member stay in the table.
-/

namespace Lineage

/-- A symbol table and a scope whose identities and names are symbols of that table. -/
structure Session where
  symbols : SymbolTable
  scope : Scope

/-- An operation in strings. -/
inductive Request where
  | declare (declaration : WrittenDeclaration)
  | ask (query : Query String)
deriving DecidableEq

/-- A scope without types, with its implicit root in strings. -/
def Scope.ofWritten (implicitRoot : Option WrittenType) (memoize : Bool) : Interning Scope := do
  return .new (← implicitRoot.mapM (·.intern)) memoize

namespace Session

def declare (s : Session) (w : WrittenDeclaration) :
    Except CapacityError (Except DeclareError Handle × Session) := do
  let (declaration, symbols) ← w.intern.run s.symbols
  match declaration with
  | .error e => return (.error e, { s with symbols })
  | .ok d =>
    let (added, scope) := s.scope.add d
    return (added, ⟨symbols, scope⟩)

def ask (s : Session) (q : Query String) :
    Except CapacityError (Except ResolveError Answer × Session) := do
  let (query, symbols) ← q.intern.run s.symbols
  let (answer, scope) := s.scope.ask query
  return (answer, ⟨symbols, scope⟩)

def perform (s : Session) : Request → Except CapacityError (Outcome × Session)
  | .declare w => do
    let (added, next) ← s.declare w
    return (.added added, next)
  | .ask q => do
    let (answer, next) ← s.ask q
    return (.answered answer, next)

end Session

end Lineage
