/-!
# Byte Spans

Positions in a source are byte offsets of at most 32 bits.  A span is an offset with a length; its
end is cut at the largest offset, so it never lies beyond what an offset can say.
-/

namespace BinaryNames

/-- The largest byte offset. -/
def maxOffset : Nat := 4294967295

/-- A byte count as an offset, cut at the largest one. -/
def offsetOfSize (size : Nat) : Nat := min size maxOffset

/-- A stretch of source bytes. -/
structure Span where
  offset : Nat
  length : Nat
deriving DecidableEq, Repr, Inhabited

namespace Span

/-- The bytes from `start` up to `stop`, none if `stop` comes first. -/
def ofBounds (start stop : Nat) : Span := ⟨start, stop - start⟩

/-- The offset after the last byte. -/
def stop (s : Span) : Nat := min (s.offset + s.length) maxOffset

/-- Whether the byte at `offset` belongs to the span. -/
def contains (s : Span) (offset : Nat) : Bool := s.offset ≤ offset && offset < s.stop

/-- From the start of `first` to the end of `last`. -/
def upTo (first last : Span) : Span := ofBounds first.offset last.stop

theorem contains_iff (s : Span) (o : Nat) :
    s.contains o = true ↔ s.offset ≤ o ∧ o < s.stop := by
  simp [contains]

end Span

end BinaryNames
