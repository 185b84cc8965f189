import ScriptFront.Source.Position
import ScriptFront.Text.Quoted

/-!
# Errors

An error is a cause and a position. The cause is data: it holds the piece of source it complains
about, and the wording is made from it on demand, in two forms. The message is one line that
names the cause and the position and quotes the piece, so that it can be read back. The tip is
advice to the author of the source and repeats the piece as it is.
-/

namespace ScriptFront

/-- What can be wrong with a source. -/
inductive Cause where
  /-- A string literal has no closing quote. -/
  | unterminatedString
  /-- A number has more than one fractional part. -/
  | malformedNumber (literal : String)
  /-- A character starts no token. -/
  | invalidCharacter (character : Char)
  /-- A token was taken for a number and does not read as one. -/
  | unreadableNumber (text : String)
  /-- A source has more bytes than positions can count. -/
  | sourceTooLarge (size : Nat)
deriving DecidableEq, Repr

namespace Cause

/-- The name of a cause. -/
def name : Cause → String
  | unterminatedString => "UnterminatedString"
  | malformedNumber _ => "MalformedNumber"
  | invalidCharacter _ => "InvalidCharacter"
  | unreadableNumber _ => "NumberParseError"
  | sourceTooLarge _ => "SourceTooLarge"

/-- What is wrong, in one line. -/
def message : Cause → String
  | unterminatedString => "unterminated string literal"
  | malformedNumber literal => "malformed number: " ++ Text.quoteString literal
  | invalidCharacter character => "invalid character: " ++ Text.quoteChar character
  | unreadableNumber text => "error parsing number: " ++ Text.quoteString text
  | sourceTooLarge size => "source of " ++ size.repr ++ " bytes is too large"

/-- What may help. A character that starts no token gets no tip, because the report shows it. -/
def tip? : Cause → Option String
  | unterminatedString => some "String literal is never closed, did you miss a `\"`?"
  | malformedNumber literal =>
      some ("Malformed number: `" ++ literal ++ "`, a number may contain at most one decimal point")
  | invalidCharacter _ => none
  | unreadableNumber text => some ("Invalid number: `" ++ text ++ "`")
  | sourceTooLarge size =>
      some ("Source is " ++ size.repr ++ " bytes, at most " ++ maxOffset.repr ++ " are supported")

end Cause

/-- A cause and the place in the source that it complains about. -/
structure Error where
  cause : Cause
  position : Position
deriving DecidableEq, Repr

/-- What is wrong and where, in one line. -/
def Error.message (error : Error) : String :=
  error.cause.message ++ " at " ++ error.position.file ++ ":" ++ error.position.offset.repr

end ScriptFront
