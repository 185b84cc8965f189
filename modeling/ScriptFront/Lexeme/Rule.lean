import ScriptFront.Token.Kind

/-!
# Lexical rules

A rule describes one sort of lexeme by how far it reaches into a text: the number of characters
of the longest start of the text that the rule describes, or zero if it describes none. That is
all a rule is, so rules can be compared. Of several, the one that reaches farthest applies, and of
two that reach equally far the one that is listed first.

What becomes of a lexeme is decided elsewhere; the rules only say where it ends. Strings are the
exception. Where a string ends is not a matter of its longest start, so their rule reaches over
the opening quote alone.

For each mark the table of rules has two texts, one to look for and one to move the cursor over, and
its kind has a spelling besides. Nothing in the rules makes the three the same, so it takes a proof
that they are (`Punct.entry_eq`).
-/

namespace ScriptFront

/-- Whether a character can start an identifier or reserved word. -/
def isWordStart (c : Char) : Bool := c.isAlpha || c == '_'

/-- Whether a character can go on with an identifier or reserved word. -/
def isWordPart (c : Char) : Bool := c.isAlphanum || c == '_'

/-- Whether a character separates lexemes and means nothing more. -/
def isSeparator (c : Char) : Bool := c == ' ' || c == '\t' || c == '\r' || c == '\n'

/-- What the table of rules has for a mark. -/
structure MarkEntry where
  /-- The text that the rule looks for. -/
  pattern : String
  /-- The text that the cursor is moved over when the rule applies. -/
  literal : String
deriving DecidableEq, Repr

namespace Punct

/-- The entry for a mark. -/
def entry : Punct → MarkEntry
  | openBracket => ⟨"[", "["⟩
  | closeBracket => ⟨"]", "]"⟩
  | openCurly => ⟨"\x7b", "\x7b"⟩
  | closeCurly => ⟨"\x7d", "\x7d"⟩
  | openParen => ⟨"(", "("⟩
  | closeParen => ⟨")", ")"⟩
  | equals => ⟨"==", "=="⟩
  | notEquals => ⟨"!=", "!="⟩
  | not => ⟨"!", "!"⟩
  | assignment => ⟨"=", "="⟩
  | lessEquals => ⟨"<=", "<="⟩
  | less => ⟨"<", "<"⟩
  | greaterEquals => ⟨">=", ">="⟩
  | greater => ⟨">", ">"⟩
  | or => ⟨"||", "||"⟩
  | and => ⟨"&&", "&&"⟩
  | dotDot => ⟨"..", ".."⟩
  | dot => ⟨".", "."⟩
  | semicolon => ⟨";", ";"⟩
  | colon => ⟨":", ":"⟩
  | question => ⟨"?", "?"⟩
  | comma => ⟨",", ","⟩
  | plusPlus => ⟨"++", "++"⟩
  | minusMinus => ⟨"--", "--"⟩
  | plusEquals => ⟨"+=", "+="⟩
  | minusEquals => ⟨"-=", "-="⟩
  | plus => ⟨"+", "+"⟩
  | dash => ⟨"-", "-"⟩
  | slash => ⟨"/", "/"⟩
  | star => ⟨"*", "*"⟩
  | percent => ⟨"%", "%"⟩

/-- **The texts for a mark agree.** What its rule looks for, what the cursor is moved over and how
its kind is spelled are one text. -/
theorem entry_eq (mark : Punct) : mark.entry = ⟨mark.spelling, mark.spelling⟩ := by
  cases mark <;> rfl

end Punct

/-- A sort of lexeme. -/
inductive Rule where
  /-- An identifier or reserved word. -/
  | word
  /-- Digits, with or without a fractional part. -/
  | number
  /-- A run of separators. -/
  | separators
  /-- The quote that opens a string. -/
  | quote
  /-- Two slashes and the rest of the line. -/
  | comment
  /-- One of the marks. -/
  | punct (mark : Punct)
deriving DecidableEq, Repr

namespace Rule

/-- The number of characters at the start of a text that have a property. -/
def runLength (p : Char → Bool) (cs : List Char) : Nat := (cs.takeWhile p).length

/-- How far a fractional part reaches: a point and at least one digit. -/
def fraction : List Char → Nat
  | [] => 0
  | c :: cs => if c = '.' ∧ runLength Char.isDigit cs ≠ 0 then 1 + runLength Char.isDigit cs else 0

/-- How far fractional parts reach that follow one another. -/
def fractions (cs : List Char) : Nat :=
  if fraction cs = 0 then 0 else fraction cs + fractions (cs.drop (fraction cs))
termination_by cs.length
decreasing_by
  cases cs with
  | nil => contradiction
  | cons c cs => simp only [List.length_drop, List.length_cons]; omega

/-- The number of characters of the longest start of a text that a rule describes. -/
def reach (rule : Rule) (cs : List Char) : Nat :=
  match rule with
  | word =>
      match cs with
      | [] => 0
      | c :: rest => if isWordStart c then 1 + runLength isWordPart rest else 0
  | number =>
      let whole := runLength Char.isDigit cs
      if whole = 0 then 0 else whole + fraction (cs.drop whole)
  | separators => runLength isSeparator cs
  | quote => if cs.head? = some '"' then 1 else 0
  | comment =>
      if ['/', '/'].isPrefixOf cs then 2 + runLength (· != '\n') (cs.drop 2) else 0
  | punct mark =>
      if mark.entry.pattern.toList.isPrefixOf cs then mark.entry.pattern.toList.length else 0

/-- The rules of the language. -/
def table : List Rule := [word, number, separators, quote, comment] ++ Punct.all.map punct

/-- The first of the rules that reach farthest into a text, with its reach, if any does reach
into it. -/
def longest (rules : List Rule) (cs : List Char) : Option (Rule × Nat) :=
  match rules with
  | [] => none
  | rule :: others =>
      match longest others cs with
      | none => if rule.reach cs = 0 then none else some (rule, rule.reach cs)
      | some (best, n) => if rule.reach cs < n then some (best, n) else some (rule, rule.reach cs)

/-! ## What applies is listed and reaches -/

/-- The rule that applies is one of those listed, and its reach is not zero. -/
theorem longest_mem {rules : List Rule} {cs : List Char} {rule : Rule} {n : Nat}
    (h : longest rules cs = some (rule, n)) : rule ∈ rules ∧ n = rule.reach cs ∧ 0 < n := by
  induction rules generalizing rule n with
  | nil => simp [longest] at h
  | cons first others ih =>
      rw [longest] at h
      cases hothers : longest others cs with
      | none =>
          simp only [hothers, Option.ite_none_left_eq_some, Option.some.injEq, Prod.mk.injEq] at h
          obtain ⟨hpos, rfl, rfl⟩ := h
          exact ⟨by simp, rfl, by omega⟩
      | some best =>
          obtain ⟨hmem, hreach, hpos⟩ := @ih best.1 best.2 hothers
          simp only [hothers] at h
          split at h
          · simp only [Option.some.injEq, Prod.mk.injEq] at h
            obtain ⟨rfl, rfl⟩ := h
            exact ⟨List.mem_cons_of_mem _ hmem, hreach, hpos⟩
          · simp only [Option.some.injEq, Prod.mk.injEq] at h
            obtain ⟨rfl, rfl⟩ := h
            exact ⟨by simp, rfl, by omega⟩

/-- The rule for a mark reaches over its spelling, if the text begins with that. -/
theorem reach_punct (mark : Punct) (cs : List Char) :
    (punct mark).reach cs =
      if mark.spelling.toList.isPrefixOf cs then mark.spelling.toList.length else 0 := by
  rw [reach, mark.entry_eq]

/-- A run ends where the text does, if not before. -/
theorem runLength_le_length (p : Char → Bool) (cs : List Char) : runLength p cs ≤ cs.length :=
  List.Sublist.length_le (List.takeWhile_sublist p)

end Rule

end ScriptFront
