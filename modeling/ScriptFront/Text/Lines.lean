/-!
# Lines

A text is cut into lines behind each newline, so a line owns the newline that ends it, and only
the last line can be without one. Nothing is lost: the lines, put together, are the text again.
-/

namespace ScriptFront.Text

/-- The lines of a text, each with the newline that ends it. -/
def lines : List Char → List (List Char)
  | [] => []
  | c :: cs =>
      if c = '\n' then [c] :: lines cs
      else
        match lines cs with
        | [] => [[c]]
        | line :: rest => (c :: line) :: rest

/-- The lines of a text make it up. -/
theorem flatten_lines (cs : List Char) : (lines cs).flatten = cs := by
  induction cs with
  | nil => rfl
  | cons c cs ih =>
      by_cases hc : c = '\n'
      · simp [lines, hc, ih]
      · cases hcs : lines cs with
        | nil => simpa [lines, hc, hcs] using ih
        | cons line rest => simpa [lines, hc, hcs] using ih

end ScriptFront.Text
