import ScriptFront.Proofs.Lookahead
import ScriptFront.Proofs.Stream

/-!
# The results of a text, one by one

The results of reading to the end depend on the text, on the offset at which it begins and on the
name of the file (`Session.results_congr`). This file says how, by three equations: the first result
is what a scan of the text finds, at the offset behind what it skips, and if that is a token the
others are the results of the text behind it. To compare what is read from two texts it is enough
to compare their scans, and no session has to be followed step by step. The proofs go by
`Scan.finding_induction`, which has one case for each equation.

A mistake among the results stands at a character of the text that is no separator
(`exists_of_error_mem`).

Two comparisons are made here. Blanks in front of a text do nothing but move its results
(`results_blanks`), and if a text begins at a greater offset all its results are shifted by the
difference (`results_shift`).
-/

namespace ScriptFront

open Rule

/-! ## Shifts -/

/-- The position a number of bytes further on. -/
def Position.shift (bytes : Nat) (position : Position) : Position :=
  { position with offset := position.offset + bytes }

/-- The span a number of bytes further on. -/
def Span.shift (bytes : Nat) (span : Span) : Span :=
  ⟨span.start.shift bytes, span.stop.shift bytes⟩

/-- The token a number of bytes further on. -/
def Token.shift (bytes : Nat) (token : Token) : Token :=
  { token with span := token.span.shift bytes }

/-- The error a number of bytes further on. -/
def Error.shift (bytes : Nat) (error : Error) : Error :=
  { error with position := error.position.shift bytes }

/-! ## What is found first -/

namespace Scan

variable {rules : List Rule}

/-- A token stands behind what is skipped, and the rest of the text behind the token. -/
theorem lead_append_token {cs lexeme rest : List Char} {kind : Kind} {value : String}
    (h : (of rules cs).finding = .token kind value lexeme rest) :
    (of rules cs).lead ++ (lexeme ++ rest) = cs := by
  obtain ⟨behind, hreads⟩ := of_reads rules cs
  rw [← (hreads.token_append h).1, hreads.append]

/-- **Induction finding by finding.** In a text nothing is found, or a mistake, or a token with a
text behind it. -/
@[elab_as_elim]
theorem finding_induction (rules : List Rule) {P : List Char → Prop}
    (eof : ∀ cs, (of rules cs).finding = .eof → P cs)
    (mistake : ∀ cs cause, (of rules cs).finding = .mistake cause → P cs)
    (token : ∀ cs kind value lexeme rest,
      (of rules cs).finding = .token kind value lexeme rest → P rest → P cs)
    (cs : List Char) : P cs := by
  induction cs using token_induction rules with
  | last cs hrest =>
      rcases rest?_eq_none_iff.mp hrest with hf | ⟨cause, hf⟩
      · exact eof cs hf
      · exact mistake cs cause hf
  | token cs rest hrest ih =>
      obtain ⟨kind, value, lexeme, hf⟩ := rest?_eq_some_iff.mp hrest
      exact token cs kind value lexeme rest hf ih

end Scan

namespace Session

variable {rules : List Rule} {s : Session} {cs : List Char}

/-- A result a number of bytes further on. -/
def shiftResult (bytes : Nat) : Except Error Token → Except Error Token
  | .ok token => .ok (token.shift bytes)
  | .error error => .error (error.shift bytes)

/-- Results that are shifted, as one answer. -/
theorem mapM_id_shift (bytes : Nat) (results : List (Except Error Token)) :
    (results.map (shiftResult bytes)).mapM id =
      match results.mapM id with
      | .ok tokens => .ok (tokens.map (Token.shift bytes))
      | .error error => .error (error.shift bytes) := by
  induction results with
  | nil => rfl
  | cons result results ih =>
      simp only [List.map_cons, List.mapM_cons, id, ih]
      cases result with
      | error error => rfl
      | ok token => cases results.mapM id <;> rfl

/-- Moving the cursor does not change where offsets are. -/
@[simp] theorem positionAt_advance (s : Session) (bytes offset : Nat) :
    (s.advance bytes).positionAt offset = s.positionAt offset := rfl

@[simp] theorem span_advance (s : Session) (bytes start stop : Nat) :
    (s.advance bytes).span start stop = s.span start stop := rfl

@[simp] theorem advance_advance (s : Session) (first second : Nat) :
    (s.advance first).advance second = s.advance (first + second) := by
  simp only [advance, Nat.add_assoc]

/-- What a scan finds is further on if the cursor is. -/
theorem found_advance (s : Session) (bytes : Nat) (scan : Scan) :
    (s.advance bytes).found scan = s.found scan + bytes := by
  simp only [found, advance, Nat.add_right_comm]

/-- A position that is not cut off is shifted as it should be. -/
theorem positionAt_shift {offset bytes : Nat} (h : offset + bytes ≤ maxOffset) :
    s.positionAt (offset + bytes) = (s.positionAt offset).shift bytes := by
  rw [positionAt_of_le h, positionAt_of_le (by omega)]
  rfl

/-- So is a span. -/
theorem span_shift {start stop bytes : Nat} (hstart : start + bytes ≤ maxOffset)
    (hstop : stop + bytes ≤ maxOffset) :
    s.span (start + bytes) (stop + bytes) = (s.span start stop).shift bytes := by
  unfold span
  rw [positionAt_shift hstart, positionAt_shift hstop]
  rfl

/-! ## The first result and the others -/

/-- The end is the only result of a text in which nothing is found. -/
theorem results_of_eof (h : (Scan.of rules cs).finding = .eof) :
    (s.sweepText rules cs).results =
      [.ok ⟨.eof, "", s.span (s.found (Scan.of rules cs)) (s.found (Scan.of rules cs))⟩] := by
  rw [(sweepText_of_rest?_none (Scan.rest?_eq_none_iff.mpr (Or.inl h))).1, settle_of_eof h]

/-- So is a mistake. -/
theorem results_of_mistake {cause : Cause} (h : (Scan.of rules cs).finding = .mistake cause) :
    (s.sweepText rules cs).results =
      [.error ⟨cause, s.positionAt (s.found (Scan.of rules cs))⟩] := by
  rw [(sweepText_of_rest?_none (Scan.rest?_eq_none_iff.mpr (Or.inr ⟨cause, h⟩))).1,
    settle_of_mistake h]

/-- **Behind a token come the results of the text behind it.** -/
theorem results_of_token {kind : Kind} {value : String} {lexeme rest : List Char}
    (h : (Scan.of rules cs).finding = .token kind value lexeme rest) :
    (s.sweepText rules cs).results =
      .ok ⟨kind, value,
          s.span (s.found (Scan.of rules cs))
            (s.found (Scan.of rules cs) + Text.width lexeme)⟩ ::
        ((s.advance (Text.width (Scan.of rules cs).lead + Text.width lexeme)).sweepText
          rules rest).results := by
  rw [(sweepText_of_rest?_some (Scan.rest?_eq_some_iff.mpr ⟨_, _, _, h⟩)).1, settle_of_token h]
  refine congrArg (List.cons _) (results_congr ?_ ?_ rest)
  · simp only [found, advance, Nat.add_assoc]
  · rfl

/-- **A mistake stands at a character that is no separator.** -/
theorem exists_of_error_mem {error : Error}
    (h : .error error ∈ (s.sweepText table cs).results) :
    ∃ front c rest, cs = front ++ c :: rest ∧ isSeparator c = false
      ∧ Piece.cut table (c :: rest) = .found (.mistake error.cause)
      ∧ error.position = s.positionAt (s.pos + Text.width front) := by
  induction cs using Scan.finding_induction table generalizing s with
  | eof cs hf =>
      rw [results_of_eof hf] at h
      exact absurd h (by simp)
  | mistake cs cause hf =>
      rw [results_of_mistake hf, List.mem_singleton] at h
      injection h with h
      have heof : (Scan.of table cs).finding ≠ .eof := by rw [hf]; simp
      obtain ⟨c, rest, hrest, hc, hcut⟩ := Scan.exists_behind heof
      have hcs := Scan.lead_append_afterBlanks cs
      rw [hrest] at hcs
      rw [hf] at hcut
      rw [h]
      exact ⟨(Scan.of table cs).lead, c, rest, hcs.symm, hc, hcut, rfl⟩
  | token cs kind value lexeme rest hf ih =>
      rw [results_of_token hf] at h
      rcases List.mem_cons.mp h with hfirst | hlater
      · exact absurd hfirst (by simp)
      · obtain ⟨front, c, back, hrest, hc, hcut, hposition⟩ := ih hlater
        have hcs := Scan.lead_append_token hf
        rw [hrest] at hcs
        refine ⟨(Scan.of table cs).lead ++ (lexeme ++ front), c, back, ?_, hc, hcut, ?_⟩
        · rw [List.append_assoc, List.append_assoc]
          exact hcs.symm
        · rw [hposition, positionAt_advance]
          simp only [advance, Text.width_append, Nat.add_assoc]

/-! ## From another offset -/

/-- **Blanks in front of a text move its results and change nothing else.** -/
theorem results_blanks {blank : List Char} (h : Blanks blank) (cs : List Char) :
    (s.sweepText table (blank ++ cs)).results =
      ((s.advance (Text.width blank)).sweepText table cs).results := by
  obtain ⟨hlead, hfinding⟩ := Scan.of_blanks h cs
  have hfound : s.found (Scan.of table (blank ++ cs)) =
      (s.advance (Text.width blank)).found (Scan.of table cs) := by
    simp only [found, advance, hlead, Text.width_append, Nat.add_assoc]
  cases hf : (Scan.of table cs).finding with
  | eof => rw [results_of_eof (hfinding.trans hf), results_of_eof hf, hfound, span_advance]
  | mistake cause =>
      rw [results_of_mistake (hfinding.trans hf), results_of_mistake hf, hfound,
        positionAt_advance]
  | token kind value lexeme rest =>
      rw [results_of_token (hfinding.trans hf), results_of_token hf, hfound, span_advance,
        advance_advance, hlead, Text.width_append, Nat.add_assoc]

/-- A text that begins further on has its results further on. -/
theorem results_shift {bytes : Nat} (hsize : s.pos + bytes + Text.width cs ≤ maxOffset) :
    ((s.advance bytes).sweepText rules cs).results =
      (s.sweepText rules cs).results.map (shiftResult bytes) := by
  have hfound : ∀ {t : Session} {cs : List Char}, t.pos + bytes + Text.width cs ≤ maxOffset →
      t.found (Scan.of rules cs) + bytes ≤ maxOffset := by
    intro t cs hsize
    obtain ⟨behind, hreads⟩ := Scan.of_reads rules cs
    rw [← hreads.append, Text.width_append] at hsize
    simp only [found]
    omega
  induction cs using Scan.finding_induction rules generalizing s with
  | eof cs hf =>
      have hle := hfound hsize
      rw [results_of_eof hf, results_of_eof hf, found_advance, span_advance, span_shift hle hle]
      rfl
  | mistake cs cause hf =>
      rw [results_of_mistake hf, results_of_mistake hf, found_advance, positionAt_advance,
        positionAt_shift (hfound hsize)]
      rfl
  | token cs kind value lexeme rest hf ih =>
      have hwidth := congrArg Text.width (Scan.lead_append_token hf)
      rw [Text.width_append, Text.width_append] at hwidth
      have hle : s.found (Scan.of rules cs) + Text.width lexeme + bytes ≤ maxOffset := by
        simp only [found]
        omega
      rw [results_of_token hf, results_of_token hf, found_advance, span_advance,
        advance_advance, Nat.add_right_comm, span_shift (hfound hsize) hle, List.map_cons,
        Nat.add_comm bytes, ← advance_advance, ih (by simp only [advance]; omega)]
      rfl

end Session

end ScriptFront
