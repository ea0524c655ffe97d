import BinaryNames.Error
import BinaryNames.Source.Span

/-!
# Lines

A text is cut into lines at its line feeds.  The span of a line leaves out its terminator: the line
feed, with the carriage return right before it if there is one.  After the last line feed there is
one more line, which may be empty.
-/

namespace BinaryNames

/-- The spans of the lines of a text, in order. -/
structure Lines where
  spans : Array Span
deriving Repr, Inhabited

namespace Lines

/-- What is known after some bytes: the finished lines, where the current line starts, how many
bytes were read, and whether the last of them is a carriage return. -/
structure Reading where
  finished : Array Span
  start : Nat
  position : Nat
  afterReturn : Bool

def Reading.init : Reading := ⟨#[], 0, 0, false⟩

/-- A span between two byte counts. -/
def spanOf (start stop : Nat) : Span := Span.ofBounds (offsetOfSize start) (offsetOfSize stop)

def Reading.step (r : Reading) (b : UInt8) : Reading :=
  if b = 10 then
    let stop := if r.afterReturn then r.position - 1 else r.position
    ⟨r.finished.push (spanOf r.start stop), r.position + 1, r.position + 1, false⟩
  else ⟨r.finished, r.start, r.position + 1, b = 13⟩

/-- The lines of what has been read, with the current one as the last. -/
def Reading.lines (r : Reading) : Lines := ⟨r.finished.push (spanOf r.start r.position)⟩

/-- The lines of a byte string. -/
def ofBytes (bytes : ByteArray) : Lines := (bytes.data.foldl Reading.step Reading.init).lines

def ofText (text : String) : Lines := ofBytes text.toUTF8

def count (l : Lines) : Nat := l.spans.size

/-- The one-based number of the line that `offset` belongs to. -/
def lineOf (l : Lines) (offset : Nat) : Nat := l.spans.countP (fun s ↦ s.offset ≤ offset)

/-- The span of a line, by its one-based number. -/
def span? (l : Lines) (line : Int) : Option Span :=
  if 1 ≤ line then l.spans[(line - 1).toNat]? else none

/-- The span of a line; a number outside the text is malformed input. -/
def span (l : Lines) (line : Int) : Except Error Span :=
  match l.span? line with
  | some s => .ok s
  | none => .error (.malformedInput s!"line {line} is outside 1..={l.count}")

end Lines

end BinaryNames
