import ScriptFront.Source.Position
import ScriptFront.Token.Kind

/-!
# Tokens

A token is what the lexer makes of one lexeme: its kind, its value and where it stood. The value
of a number or an identifier is its text, that of a string what the literal means, and that of
every other token is empty.
-/

namespace ScriptFront

/-- A lexical unit of a source. -/
structure Token where
  kind : Kind
  value : String
  span : Span
deriving DecidableEq, Repr

namespace Token

/-- Whether a token is of one of these kinds. -/
def isOneOf (token : Token) (kinds : List Kind) : Bool := kinds.contains token.kind

/-- A token as one line of a listing: its kind, then in parentheses its value if it needs one. -/
def describe (token : Token) : String :=
  token.kind.name ++ " (" ++ (if token.kind.hasPayload then token.value else "") ++ ")"

end Token

end ScriptFront
