/-!
# Spans of source text

Positions are counted in UTF-8 bytes from the start of the source.
-/
namespace MapScript

/-- The half-open range of bytes from `start` to `stop`. Nothing keeps a span from being
reversed; such a span is empty. -/
structure Span where
  start : Nat
  stop : Nat
deriving DecidableEq, Repr, Inhabited

namespace Span

/-- The empty span at a position. -/
def point (position : Nat) : Span := ⟨position, position⟩

def length (s : Span) : Nat := s.stop - s.start

def isEmpty (s : Span) : Bool := s.length == 0

end Span

end MapScript
