import ScriptFront.Error.Basic
import ScriptFront.Source.Location
import ScriptFront.Text.Blank

/-!
# Reports

A report shows an error in its source. It has five lines: the name of the cause with its tip,
the file, a bar, the source line with its number, and an arrow under the character meant.

The bars of the last three lines stand in one column, however many digits the line number has.
The source line is shown without its indentation and without the white space at its end, and the
arrow is moved by as many characters as the indentation had. A position that the text does not
have is reported on an empty first line, so that there is a report in any case.
-/

namespace ScriptFront

/-- What a report says, before it is laid out. -/
structure Report where
  /-- The name of the cause, with the tip if there is one. -/
  heading : String
  file : String
  /-- The number of the line. -/
  line : Nat
  /-- The line as it is shown. -/
  text : List Char
  /-- The number of characters in front of the one meant. -/
  indent : Nat
deriving DecidableEq, Repr

namespace Report

/-- Whether a character in front of a line counts as its indentation. -/
def isIndent (c : Char) : Bool := c == ' ' || c == '\t'

/-- The digits of the line number. -/
def number (report : Report) : List Char := Nat.toDigits 10 report.line

/-- The line above the source line: a bar behind as much space as the line number takes. -/
def barLine (report : Report) : List Char :=
  List.replicate (report.number.length + 1) ' ' ++ ['|']

/-- The source line behind its number and a bar. -/
def sourceLine (report : Report) : List Char :=
  report.number ++ [' ', '|', ' '] ++ report.text

/-- The line below the source line: a bar, then an arrow as long as the indent. -/
def arrowLine (report : Report) : List Char :=
  report.barLine ++ [' '] ++ List.replicate report.indent '-' ++ ['^']

/-- The lines of a report. -/
def lines (report : Report) : List (List Char) :=
  [("Error: " ++ report.heading).toList, ("-> " ++ report.file).toList,
    report.barLine, report.sourceLine, report.arrowLine]

/-- A report as text, each line ended by a newline. -/
def render (report : Report) : String :=
  String.ofList (report.lines.flatMap (· ++ ['\n']))

end Report

/-- The report of an error against a text, which need not be the one it was found in. -/
def Error.report (error : Error) (text : List Char) : Report :=
  let location := (Location.find? text error.position.offset).getD ⟨1, [], 0⟩
  { heading :=
      match error.cause.tip? with
      | none => error.cause.name
      | some tip => error.cause.name ++ " (" ++ tip ++ ")"
    file := error.position.file
    line := location.line
    text := Text.trimEnd (location.text.dropWhile Report.isIndent)
    indent := location.column - (location.text.takeWhile Report.isIndent).length }

/-! ## A report at work -/

/-- The indentation is gone, and the arrow ends under the character meant. -/
example :
    (Error.report ⟨.invalidCharacter '@', ⟨11, "main"⟩⟩ "\n  let a = @; \n".toList).lines =
      ["Error: InvalidCharacter".toList, "-> main".toList, "  |".toList,
        "2 | let a = @;".toList, "  | --------^".toList] := by
  decide +kernel

end ScriptFront
