/-!
Contract: the two kinds of extent a source text has.

`ByteRange` counts bytes of the UTF-8 encoding and is what a syntax tree carries. `Span` counts
characters and is what an editor is told. Keeping them apart as types makes every conversion
between the two units visible.

Owns: both types, the order of spans, and shifting a span.
Does not own: the conversion from one unit to the other.
-/

namespace PatternScript

/-- A half-open range of byte offsets into the UTF-8 encoding of a text. -/
structure ByteRange where
  start : Nat
  stop : Nat
deriving DecidableEq, Repr, Inhabited

/-- A half-open range of character offsets into a text. -/
structure Span where
  start : Nat
  stop : Nat
deriving DecidableEq, Repr, Inhabited

namespace ByteRange

/-- The range lies wholly inside another one. -/
def Within (inner outer : ByteRange) : Prop :=
  outer.start ≤ inner.start ∧ inner.stop ≤ outer.stop

instance (inner outer : ByteRange) : Decidable (inner.Within outer) :=
  inferInstanceAs (Decidable (_ ∧ _))

end ByteRange

namespace Span

/-- Both ends moved to the right by `delta` characters. -/
def shift (span : Span) (delta : Nat) : Span :=
  ⟨span.start + delta, span.stop + delta⟩

/-- The number of characters covered; a span that ends before it starts covers none. -/
def length (span : Span) : Nat :=
  span.stop - span.start

/-- The span covers no character. -/
def isEmpty (span : Span) : Bool :=
  span.length == 0

/-- Spans are ordered by start and then by end. -/
def compare (left right : Span) : Ordering :=
  (Ord.compare left.start right.start).then (Ord.compare left.stop right.stop)

end Span

end PatternScript
