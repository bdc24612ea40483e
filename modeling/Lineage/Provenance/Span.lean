/-!
# Spans

A span is a range of byte offsets, `start` included and `stop` excluded.  Spans are recorded as they
come, so a span may be inverted; such a span holds no offset.
-/

namespace Lineage

/-- The byte offsets from `start` up to, and without, `stop`. -/
structure Span where
  start : UInt32
  stop : UInt32
deriving DecidableEq

namespace Span

/-- The span of a declaration that has no place in a file. -/
def dummy : Span := ⟨0, 0⟩

/-- The number of offsets in the span. -/
def length (s : Span) : UInt32 :=
  if s.start ≤ s.stop then s.stop - s.start else 0

def isEmpty (s : Span) : Bool := s.stop ≤ s.start

def contains (s : Span) (offset : UInt32) : Bool := s.start ≤ offset && offset < s.stop

/-- The span from the smaller start to the larger stop. -/
def hull (s t : Span) : Span := ⟨min s.start t.start, max s.stop t.stop⟩

def inspect (s : Span) : String := toString s.start ++ ".." ++ toString s.stop

end Span

end Lineage
