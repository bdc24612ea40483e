import Lineage.Provenance.Span
import Lineage.Provenance.Url
import Lineage.Symbol.Table

/-!
# Positions

A position tells where a type or a member came from: the url of the file, and the place in it.  It
is information for the reader; no answer about a hierarchy depends on it.
-/

namespace Lineage

/-- The origin of a declaration: a url and a place in that file.  Line and column count from one,
and are zero where they are not known. -/
structure Position where
  url : Symbol
  span : Span
  line : UInt32
  column : UInt32
deriving DecidableEq

namespace Position

/-- A position of which only the file is known. -/
def ofUrl (url : Symbol) : Position := ⟨url, .dummy, 0, 0⟩

def urlText (t : SymbolTable) (p : Position) : String := t.text p.url

def fileText (t : SymbolTable) (p : Position) : String := Url.file (p.urlText t)

def inspect (p : Position) : String :=
  Text.record "Position" [("url", p.url.inspect), ("span", p.span.inspect),
    ("line", toString p.line), ("column", toString p.column)]

end Position

end Lineage
