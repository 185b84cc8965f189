import ScriptFront.Text.Bytes
import ScriptFront.Text.Lines

/-!
# Locations

People find a place in a source by its line and column. Lines are counted from one and columns,
in characters, from zero. A line owns the newline that ends it, so every offset below the end of
the text lies on exactly one line, and a walk over the lines finds it.

The end of the text needs a rule of its own. After a final newline it is the start of a further
line, which is empty; otherwise it is the place behind the last character of the last line.
-/

namespace ScriptFront

/-- A place in a text as people speak of it. -/
structure Location where
  /-- The number of the line, counted from one. -/
  line : Nat
  /-- The line itself, with its newline if it has one. -/
  text : List Char
  /-- The number of characters of the line in front of the place. -/
  column : Nat
deriving DecidableEq, Repr

namespace Location

/-- Whether the end of a line, and not the start of another, is the place behind it. -/
def endsOpen (line : List Char) (rest : List (List Char)) : Bool :=
  rest.isEmpty && line.getLast? != some '\n'

/-- The location of a byte offset that counts from the first of these lines, whose number is
given. -/
def among? (number offset : Nat) : List (List Char) → Option Location
  | [] => if offset = 0 then some ⟨number, [], 0⟩ else none
  | line :: rest =>
      if offset < Text.width line ∨ (offset = Text.width line ∧ endsOpen line rest) then
        (Text.splitAtByte? offset line).map fun (front, _) => ⟨number, line, front.length⟩
      else
        among? (number + 1) (offset - Text.width line) rest

/-- The location of a byte offset, if the offset names a place in the text. -/
def find? (text : List Char) (offset : Nat) : Option Location :=
  among? 1 offset (Text.lines text)

/-! ## The end of a text -/

/-- After a final newline the end is on a further line. -/
example : find? "ab\n".toList 3 = some ⟨2, [], 0⟩ := by decide

/-- Without one it is behind the last character. -/
example : find? "ab\ncd".toList 5 = some ⟨2, ['c', 'd'], 2⟩ := by decide

/-- There is nothing past the end, nor inside a character. -/
example : find? "é".toList 3 = none ∧ find? "é".toList 1 = none := by decide

end Location

end ScriptFront
