/-!
# Numerals

A numeral is what a text says when it is read as a number, before the number is rounded to a
machine's. It is a sign with an integer and a power of ten, or one of the words for infinity and
for no number at all.

The grammar has an optional sign, then `inf`, `infinity` or `nan` in letters of any case, or
digits with an optional point among, before or behind them and an optional exponent. At least
one digit is needed, and at least one in an exponent. All characters are ASCII, and nothing may
stand around the number, white space included.
-/

namespace ScriptFront

/-- A number as it is written. -/
inductive Numeral where
  /-- The integer `digits` times ten to the power `exponent`. -/
  | finite (negative : Bool) (digits : Nat) (exponent : Int)
  | infinite (negative : Bool)
  | nan
deriving DecidableEq, Repr

namespace Numeral

/-- The integer with these decimal digits. -/
def digitsValue (cs : List Char) : Nat :=
  cs.foldl (fun value c => 10 * value + (c.toNat - '0'.toNat)) 0

/-- Whether a text has a minus sign, and the text behind its sign if it has one. -/
def splitSign (cs : List Char) : Bool × List Char :=
  match cs with
  | [] => (false, [])
  | c :: rest =>
      if c = '-' then (true, rest)
      else if c = '+' then (false, rest)
      else (false, c :: rest)

/-- The exponent that is written behind the digits, which is zero if there is none. -/
def exponent? : List Char → Option Int
  | [] => some 0
  | c :: cs =>
      let (negative, digits) := splitSign cs
      if (c = 'e' ∨ c = 'E') ∧ digits ≠ [] ∧ digits.all Char.isDigit then
        some (if negative then -digitsValue digits else digitsValue digits)
      else
        none

/-- The digits of a fractional part, and the text behind it. -/
def splitFraction : List Char → List Char × List Char
  | [] => ([], [])
  | c :: cs => if c = '.' then cs.span Char.isDigit else ([], c :: cs)

/-- The number that is written in digits, behind its sign. -/
def decimal? (negative : Bool) (cs : List Char) : Option Numeral :=
  let (whole, afterWhole) := cs.span Char.isDigit
  let (fraction, afterFraction) := splitFraction afterWhole
  if whole = [] ∧ fraction = [] then none
  else
    (exponent? afterFraction).map fun exponent =>
      finite negative (digitsValue (whole ++ fraction)) (exponent - fraction.length)

/-- The number that a text says, if it says one. -/
def read? (cs : List Char) : Option Numeral :=
  let (negative, rest) := splitSign cs
  let word := String.ofList (rest.map Char.toLower)
  if word = "inf" ∨ word = "infinity" then some (infinite negative)
  else if word = "nan" then some nan
  else decimal? negative rest

end Numeral

end ScriptFront
