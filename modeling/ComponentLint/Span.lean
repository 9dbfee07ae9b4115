import ComponentLint.Text.Basic

/-!
# Spans

A span names a part of a text by the byte offsets of its two ends.
-/

namespace ComponentLint

/-- A part of a text, from byte `start` up to but not including byte `stop`. -/
structure Span where
  start : Nat
  stop : Nat
  deriving DecidableEq, Repr

namespace Span

/-- The text a span covers, if it is a valid range of the text. -/
def slice? (s : Span) (t : Text) : Option Text := Text.slice? t s.start s.stop

/-- Whether the two ends meet. -/
def isEmpty (s : Span) : Bool := s.start == s.stop

/-- The number of bytes covered; a span whose ends are in the wrong order has none. -/
def length? (s : Span) : Option Nat := if s.start ≤ s.stop then some (s.stop - s.start) else none

end Span

end ComponentLint
