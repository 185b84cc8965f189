import ScriptFront.Error.Basic
import ScriptFront.Lexeme.Rule
import ScriptFront.Lexeme.StringBody
import ScriptFront.Token.Basic

/-!
# Pieces of a text

`Piece.cut` takes the first lexeme off a text, under the rule that applies there, and says what
it is: something to skip, a token, or a mistake.

Nothing here knows where in a source the text stands, or what came before it. Offsets are added
later, from the widths of the lexemes; this is why each piece carries its lexeme. The lexeme is
never empty and nothing gets lost (`Piece.append_of_parts?_cut`), so what is left to read gets
shorter with each piece.
-/

namespace ScriptFront

/-- What a text holds where there is nothing to skip. -/
inductive Finding where
  /-- The text is at its end. -/
  | eof
  /-- A token, with its lexeme and the text behind it. -/
  | token (kind : Kind) (value : String) (lexeme rest : List Char)
  /-- A mistake at the start of the text. -/
  | mistake (cause : Cause)
deriving DecidableEq, Repr

/-- What stands at the start of a text. -/
inductive Piece where
  /-- A lexeme without meaning, and the text behind it. -/
  | skip (lexeme rest : List Char)
  | found (finding : Finding)
deriving DecidableEq, Repr

namespace Piece

/-- The token for an identifier or reserved word. -/
def ofWord (lexeme rest : List Char) : Piece :=
  match Keyword.ofSpelling? (String.ofList lexeme) with
  | some word => found (.token (.keyword word) "" lexeme rest)
  | none => found (.token .identifier (String.ofList lexeme) lexeme rest)

/-- How far fractional parts reach behind a number that has one already. -/
def excess (lexeme rest : List Char) : Nat :=
  if '.' ∈ lexeme then Rule.fractions rest else 0

/-- The token for a number, which must not have more than one fractional part. -/
def ofNumber (lexeme rest : List Char) : Piece :=
  if excess lexeme rest = 0 then found (.token .number (String.ofList lexeme) lexeme rest)
  else
    found (.mistake (.malformedNumber (String.ofList (lexeme ++ rest.take (excess lexeme rest)))))

/-- The token for a string, given its opening quote and the text behind that. -/
def ofString (opening rest : List Char) : Piece :=
  match StringBody.read? rest with
  | none => found (.mistake .unterminatedString)
  | some (value, n) =>
      found (.token .string (String.ofList value) (opening ++ rest.take n) (rest.drop n))

/-- What a lexeme is under a rule, in front of a text. -/
def ofLexeme (rule : Rule) (lexeme rest : List Char) : Piece :=
  match rule with
  | .word => ofWord lexeme rest
  | .number => ofNumber lexeme rest
  | .separators => skip lexeme rest
  | .comment => skip lexeme rest
  | .quote => ofString lexeme rest
  | .punct mark => found (.token (.punct mark) "" lexeme rest)

/-- The first piece of a text. A character that no rule reaches over is a mistake. -/
def cut (rules : List Rule) (cs : List Char) : Piece :=
  match cs with
  | [] => found .eof
  | c :: _ =>
      match Rule.longest rules cs with
      | none => found (.mistake (.invalidCharacter c))
      | some (rule, n) => ofLexeme rule (cs.take n) (cs.drop n)

/-- The lexeme of a piece and the text behind it, if it has a lexeme. -/
def parts? : Piece → Option (List Char × List Char)
  | skip lexeme rest => some (lexeme, rest)
  | found (.token _ _ lexeme rest) => some (lexeme, rest)
  | found .eof => none
  | found (.mistake _) => none

/-! ## A piece is a non-empty start of its text -/

/-- Whatever the rule makes of a lexeme, it drops nothing and adds nothing. -/
theorem append_of_parts?_ofLexeme {rule : Rule} {lexeme rest front back : List Char}
    (h : (ofLexeme rule lexeme rest).parts? = some (front, back)) :
    front ++ back = lexeme ++ rest ∧ lexeme <+: front := by
  cases rule with
  | word =>
      simp only [ofLexeme, ofWord] at h
      split at h <;> simp only [parts?, Option.some.injEq, Prod.mk.injEq] at h <;>
        obtain ⟨rfl, rfl⟩ := h <;> simp
  | number =>
      simp only [ofLexeme, ofNumber] at h
      split at h
      · simp only [parts?, Option.some.injEq, Prod.mk.injEq] at h
        obtain ⟨rfl, rfl⟩ := h
        simp
      · simp [parts?] at h
  | quote =>
      simp only [ofLexeme, ofString] at h
      split at h
      · simp [parts?] at h
      · simp only [parts?, Option.some.injEq, Prod.mk.injEq] at h
        obtain ⟨rfl, rfl⟩ := h
        simp
  | _ =>
      simp only [ofLexeme, parts?, Option.some.injEq, Prod.mk.injEq] at h
      obtain ⟨rfl, rfl⟩ := h
      simp

/-- A piece and the text behind it make up the text it is cut off, and it is not empty. -/
theorem append_of_parts?_cut {rules : List Rule} {cs lexeme rest : List Char}
    (h : (cut rules cs).parts? = some (lexeme, rest)) : lexeme ++ rest = cs ∧ lexeme ≠ [] := by
  cases cs with
  | nil => simp [cut, parts?] at h
  | cons c cs =>
      simp only [cut] at h
      cases hlongest : Rule.longest rules (c :: cs) with
      | none => simp [hlongest, parts?] at h
      | some best =>
          obtain ⟨rule, n⟩ := best
          have hpos := (Rule.longest_mem hlongest).2.2
          rw [hlongest] at h
          obtain ⟨happend, hprefix⟩ := append_of_parts?_ofLexeme h
          refine ⟨by simpa using happend, ?_⟩
          rintro rfl
          have hnil := List.prefix_nil.mp hprefix
          simp only [List.take_eq_nil_iff, reduceCtorEq, or_false] at hnil
          omega

/-- What is behind a piece is shorter than the text. -/
theorem rest_length_lt {rules : List Rule} {cs lexeme rest : List Char}
    (h : (cut rules cs).parts? = some (lexeme, rest)) : rest.length < cs.length := by
  obtain ⟨rfl, hne⟩ := append_of_parts?_cut h
  have := List.length_pos_iff.mpr hne
  simp only [List.length_append]
  omega

end Piece

end ScriptFront
