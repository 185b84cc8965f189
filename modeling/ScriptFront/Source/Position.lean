import ScriptFront.Text.Bytes

/-!
# Positions and spans

A position is a byte offset together with the name of the file it counts in, so that it still
means something after the text is gone. A span is the half-open range between two positions.

Offsets are limited: no position that a session hands out lies past `maxOffset`, and a source
too long for that is refused before anything is read. The fields themselves are not checked.
A span may name two files or run backwards; it then simply has no text.
-/

namespace ScriptFront

/-- The largest byte offset of a position. -/
def maxOffset : Nat := 4294967295

/-- A byte offset into the source with the name of its file. -/
structure Position where
  offset : Nat
  file : String
deriving DecidableEq, Repr

/-- The position at an offset, or at the largest offset there is if that is exceeded. -/
def Position.clamped (offset : Nat) (file : String) : Position := ⟨min offset maxOffset, file⟩

/-- The source text from `start` up to but not including `stop`. -/
structure Span where
  start : Position
  stop : Position
deriving DecidableEq, Repr

namespace Span

/-- The number of bytes a span covers, which is zero if it runs backwards. -/
def size (span : Span) : Nat := span.stop.offset - span.start.offset

/-- Whether a span begins where it ends. -/
def isEmpty (span : Span) : Bool := span.start.offset == span.stop.offset

/-- The text that a span covers, if both its ends lie between characters and stand in order. -/
def slice? (span : Span) (text : List Char) : Option (List Char) :=
  Text.slice? span.start.offset span.stop.offset text

/-- The span from the start of one to the end of another. -/
def cover (first last : Span) : Span := ⟨first.start, last.stop⟩

end Span

end ScriptFront
