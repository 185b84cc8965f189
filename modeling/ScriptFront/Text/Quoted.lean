import ScriptFront.Text.GraphemeExtend
import ScriptFront.Text.Unprintable

/-!
# Quoted text

A message that repeats a piece of the source has to show where the piece begins and ends and
what is in it, whatever it holds. So the piece stands between two marks, and each character that
would be mistaken or would not show is written by an escape: the mark itself, the backslash, four
control characters that have a letter of their own, and every character that is drawn onto
another or prints as nothing, which is written by its code. All other characters stand for themselves.

The mark is a parameter: a text stands between double quotes, a single character between single
ones, and neither has to escape the other's mark.
-/

namespace ScriptFront.Text

/-- The letter that stands for a control character after a backslash. -/
def controlLetter? (c : Char) : Option Char :=
  if c = '\x00' then some '0'
  else if c = '\t' then some 't'
  else if c = '\n' then some 'n'
  else if c = '\r' then some 'r'
  else none

/-- The escape that names a character by its code in hexadecimal digits. -/
def codeEscape (c : Char) : List Char :=
  ['\\', 'u', '\x7b'] ++ Nat.toDigits 16 c.toNat ++ ['\x7d']

/-- One character as it stands between two marks. -/
def escape (mark c : Char) : List Char :=
  if c = mark ∨ c = '\\' then ['\\', c]
  else
    match controlLetter? c with
    | some letter => ['\\', letter]
    | none => if isCombining c || isUnprintable c then codeEscape c else [c]

/-- A text between two marks. -/
def quote (mark : Char) (cs : List Char) : List Char :=
  mark :: (cs.flatMap (escape mark) ++ [mark])

/-- A string between double quotes. -/
def quoteString (s : String) : String := String.ofList (quote '"' s.toList)

/-- A character between single quotes. -/
def quoteChar (c : Char) : String := String.ofList (quote '\'' [c])

/-! ## The format at work -/

/-- A string escapes its own mark, the backslash, and what does not show. -/
example : quoteString "a\"'\\\n\x07é\u0301" = "\"a\\\"'\\\\\\n\\u\x7b7\x7dé\\u\x7b301\x7d\"" := by
  decide +kernel

/-- A combining mark is written by its code, and a letter that changes the sound of another is not. -/
example : quoteChar '\u3099' = "'\\u\x7b3099\x7d'" ∧ quoteChar 'ﾞ' = "'ﾞ'" := by decide +kernel

/-- A character escapes the single quote and leaves the double one. -/
example : quoteChar '\'' = "'\\''" ∧ quoteChar '"' = "'\"'" := by decide +kernel

end ScriptFront.Text
