/-!
# Ranges of code points

A property of characters that no rule computes is written down as a table: a list of ranges of
code points, in rising order and apart from one another. A character has the property when one
of the ranges holds its code.
-/

namespace ScriptFront.Text

/-- The code points from `first` to `last`, both included. -/
structure CodeRange where
  first : Nat
  last : Nat
deriving DecidableEq, Repr

/-- Whether a range holds the code of a character. -/
def CodeRange.holds (range : CodeRange) (c : Char) : Bool :=
  range.first ≤ c.toNat && c.toNat ≤ range.last

/-- Whether some range of a table holds the code of a character. -/
def inTable (table : List CodeRange) (c : Char) : Bool :=
  table.any (·.holds c)

/-- A table holds a character just if one of its ranges does. -/
theorem inTable_iff {table : List CodeRange} {c : Char} :
    inTable table c ↔ ∃ range ∈ table, range.first ≤ c.toNat ∧ c.toNat ≤ range.last := by
  simp [inTable, CodeRange.holds]

end ScriptFront.Text
