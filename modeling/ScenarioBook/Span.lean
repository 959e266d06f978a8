/-!
# Spans

A half-open range of byte offsets into a source.
-/

set_option autoImplicit false

namespace ScenarioBook

/-- The offsets from `start` up to, and without, `stop`. -/
structure Span where
  start : Nat
  stop : Nat
deriving DecidableEq, Repr

namespace Span

/-- The span between two offsets, given in either order. -/
def between (a b : Nat) : Span := if a ≤ b then ⟨a, b⟩ else ⟨b, a⟩

/-- The number of bytes. -/
def length (s : Span) : Nat := s.stop - s.start

/-- The span has no bytes. -/
def isEmpty (s : Span) : Bool := s.start == s.stop

/-- The smallest span that covers both. -/
def union (s t : Span) : Span := ⟨min s.start t.start, max s.stop t.stop⟩

end Span

end ScenarioBook
