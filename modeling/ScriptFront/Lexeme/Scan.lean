import ScriptFront.Lexeme.Piece

/-!
# From a text to its first token

A scan cuts pieces off a text until one of them is not to be skipped. It keeps the lexemes of
the pieces before that one, because their widths say where it stands.

Each piece leaves a shorter text (`Piece.rest_length_lt`), so a scan comes to an end, and so
does a series of scans each of which starts behind the token of the one before
(`Scan.rest?_length_lt`).
-/

namespace ScriptFront

/-- What a text holds up to its first token: the lexemes to skip, then a finding. -/
structure Scan where
  skipped : List (List Char)
  finding : Finding
deriving DecidableEq, Repr

namespace Scan

/-- The same scan with one more lexeme to skip in front. -/
def after (lexeme : List Char) (scan : Scan) : Scan := ⟨lexeme :: scan.skipped, scan.finding⟩

/-- The scan of a text. -/
def of (rules : List Rule) (cs : List Char) : Scan :=
  match _hcut : Piece.cut rules cs with
  | .skip lexeme rest => (of rules rest).after lexeme
  | .found finding => ⟨[], finding⟩
termination_by cs.length
decreasing_by
  have hparts : (Piece.cut rules cs).parts? = some (lexeme, rest) := by rw [_hcut]; rfl
  exact Piece.rest_length_lt hparts

/-- The text behind the token that a scan has found, if it has found one. -/
def rest? (scan : Scan) : Option (List Char) :=
  match scan.finding with
  | .token _ _ _ rest => some rest
  | .eof => none
  | .mistake _ => none

/-- What is behind a token is shorter than the text. -/
theorem rest?_length_lt {rules : List Rule} {cs rest : List Char}
    (h : (of rules cs).rest? = some rest) : rest.length < cs.length := by
  fun_induction of rules cs with
  | case1 cs lexeme back hcut ih =>
      have hparts : (Piece.cut rules cs).parts? = some (lexeme, back) := by rw [hcut]; rfl
      have hback := Piece.rest_length_lt hparts
      have hrest := ih h
      omega
  | case2 cs finding hcut =>
      cases finding with
      | token kind value lexeme back =>
          simp only [rest?, Option.some.injEq] at h
          subst h
          have hparts : (Piece.cut rules cs).parts? = some (lexeme, back) := by rw [hcut]; rfl
          exact Piece.rest_length_lt hparts
      | eof => simp [rest?] at h
      | mistake cause => simp [rest?] at h

end Scan

end ScriptFront
