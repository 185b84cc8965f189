/-!
# String bodies

A string literal is a quote, a body and a quote. The body is read item by item. An item is a
single character that means itself, or an escape: a backslash, the character behind it, and for
a code escape up to two hexadecimal digits. Every item has a meaning, since a backslash in front
of a character that makes no escape means just itself. So the only thing that can go wrong is
that the text ends before the closing quote.
-/

namespace ScriptFront

/-- Whether a character is a hexadecimal digit of either case. -/
def isHexDigit (c : Char) : Bool :=
  c.isDigit || ('a' ≤ c && c ≤ 'f') || ('A' ≤ c && c ≤ 'F')

/-- The value of a hexadecimal digit. -/
def hexValue (c : Char) : Nat :=
  if c.isDigit then c.toNat - '0'.toNat
  else if 'a' ≤ c then c.toNat - 'a'.toNat + 10
  else c.toNat - 'A'.toNat + 10

/-- The character whose code has these hexadecimal digits. -/
def charOfHex (digits : List Char) : Char :=
  Char.ofNat (digits.foldl (fun code digit => 16 * code + hexValue digit) 0)

/-- What a backslash means together with the character behind it, if that names an escape. -/
def namedEscape? : Char → Option Char
  | 'n' => some '\n'
  | 't' => some '\t'
  | 'r' => some '\r'
  | '\\' => some '\\'
  | '"' => some '"'
  | '0' => some '\x00'
  | _ => none

namespace StringBody

/-- One item of a body: what it means, and how many characters it has behind its first. -/
structure Item where
  meaning : List Char
  tail : Nat
deriving DecidableEq, Repr

/-- The item that starts with a character, in front of a text. -/
def item (c : Char) (cs : List Char) : Item :=
  if c ≠ '\\' then ⟨[c], 0⟩
  else
    match cs with
    | [] => ⟨['\\'], 0⟩
    | d :: rest =>
        match namedEscape? d with
        | some meaning => ⟨[meaning], 1⟩
        | none =>
            let digits := if d = 'x' then (rest.take 2).takeWhile isHexDigit else []
            if digits = [] then ⟨['\\', d], 1⟩ else ⟨[charOfHex digits], 1 + digits.length⟩

/-- The meaning of a body up to the closing quote, and the number of characters read with the
quote, if there is one. -/
def read? : List Char → Option (List Char × Nat)
  | [] => none
  | c :: cs =>
      if c = '"' then some ([], 1)
      else
        (read? (cs.drop (item c cs).tail)).map fun (meaning, n) =>
          ((item c cs).meaning ++ meaning, 1 + (item c cs).tail + n)
termination_by cs => cs.length
decreasing_by simp only [List.length_drop, List.length_cons]; omega

/-! ## The escapes at work -/

/-- One digit makes a code escape if no second follows, and without any the escape is literal. -/
example :
    read? "\\x4g\\x\\q\\\"\"rest".toList = some ("\x04g\\x\\q\"".toList, 11) := by
  decide +kernel

/-- An escaped quote closes nothing. -/
example : read? "open\\\"".toList = none := by decide +kernel

end StringBody

end ScriptFront
