import ScriptFront.Error.Basic
import ScriptFront.Number.Binary64
import ScriptFront.Token.Basic

/-!
# Expressions

An expression is a tree. Its leaves are made from number and string tokens, and its inner nodes
join two expressions by an operator. A node keeps its operator token whole, so that a message
can point at it, and every node keeps its span: a leaf that of its token, an inner node the span
from the start of its left side to the end of its right.

Whether a token makes sense as an operator is left to whoever builds the tree.
-/

namespace ScriptFront

/-- An expression. -/
inductive Expr where
  | number (value : Binary64) (span : Span)
  | string (value : String) (span : Span)
  | binary (left : Expr) (operator : Token) (right : Expr) (span : Span)
deriving DecidableEq, Repr

namespace Expr

/-- The part of the source that an expression was made from. -/
def span : Expr → Span
  | number _ span => span
  | string _ span => span
  | binary _ _ _ span => span

/-- The name of the shape of an expression. -/
def kindName : Expr → String
  | number _ _ => "number"
  | string _ _ => "string"
  | binary _ _ _ _ => "binary"

/-- The leaf for a number token, whose text has to read as a number. -/
def ofNumber (token : Token) : Except Error Expr :=
  let unreadable : Error := ⟨.unreadableNumber token.value, token.span.start⟩
  if token.kind = .number then
    match Binary64.ofText? token.value with
    | some value => .ok (number value token.span)
    | none => .error unreadable
  else
    .error unreadable

/-- The leaf for a token that is taken for a string. -/
def ofString (token : Token) : Expr := string token.value token.span

/-- Two expressions joined by an operator. -/
def join (left : Expr) (operator : Token) (right : Expr) : Expr :=
  binary left operator right (left.span.cover right.span)

/-- Whether two expressions are equal: of one shape, with equal spans, strings and operators,
and with values that are equal as numbers. -/
def equals : Expr → Expr → Bool
  | number value span, number value' span' => value.equals value' && span == span'
  | string value span, string value' span' => value == value' && span == span'
  | binary left operator right span, binary left' operator' right' span' =>
      left.equals left' && operator == operator' && right.equals right' && span == span'
  | _, _ => false

end Expr

end ScriptFront
