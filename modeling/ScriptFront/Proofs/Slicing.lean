import ScriptFront.Proofs.ClosingQuote
import ScriptFront.Proofs.Lexemes
import ScriptFront.Proofs.Places

/-!
# Reading by offsets

A scan has the text still to be read in its hands, so it can take what it wants off the front. A
reader that has nothing but the source and the cursor cannot. It takes every part from the source,
between two offsets, and each time one of them may be no place. This file is about such a reader.
In a turn it cuts the source at the cursor, takes what the longest rule has matched, and for a
number or a string it cuts the source again, behind the number or behind the quote. A mark it does
not measure; it moves the cursor over the text that the table of rules has for this. Wherever it is
to cut at no place it is stuck, and the session is left as it is at that moment
(`Session.nextByOffsets`).

It does the same as the session's own step, in all sessions whatsoever
(`Session.nextByOffsets_eq`). From a place it is never stuck, since the offsets are sums of widths
of parts that follow each other, and an iteration does what becomes of the first piece
(`iteration_eq`). For a mark that is so because the texts of the table agree
(`Punct.entry_eq`). Past the end nothing is cut. Inside a character the first of all cuts fails,
before anything has been changed.
-/

namespace ScriptFront

open Rule

variable {rules : List Rule}

/-- A text is cut at the width of a start of it. -/
theorem Text.slice?_take (cs : List Char) (n : Nat) :
    Text.slice? 0 (Text.width (cs.take n)) cs = some (cs.take n) := by
  have hslice := Text.slice?_append [] (cs.take n) (cs.drop n)
  rwa [List.nil_append, List.take_append_drop, Text.width_nil, Nat.zero_add] at hslice

namespace Session

/-! ## The reader -/

/-- What one turn of the reader comes to. -/
inductive Outcome where
  /-- The source was to be cut at an offset that is no place. -/
  | stuck
  | skipped
  | result (result : Except Error Token)

/-- The text of the source behind an offset, if that is a place. -/
def from? (s : Session) (offset : Nat) : Option (List Char) :=
  (Text.splitAtByte? offset s.text).map (·.2)

/-- Give up, and change nothing. -/
def stop (s : Session) : Outcome × Session := (.stuck, s)

/-- Return a token that begins at the cursor, and move the cursor behind it. -/
def emit (s : Session) (kind : Kind) (value : String) (bytes : Nat) : Outcome × Session :=
  (.result (.ok ⟨kind, value, s.span s.pos (s.pos + bytes)⟩), s.advance bytes)

/-- Return a mistake that is made at the cursor. -/
def refuse (s : Session) (cause : Cause) : Outcome × Session :=
  (.result (.error ⟨cause, s.positionAt s.pos⟩), s.finish)

/-- Skip some bytes and keep their span, if it is to be kept. -/
def pass (s : Session) (bytes : Nat) : Outcome × Session :=
  (.skipped,
    { s with
      pos := s.pos + bytes
      recorded? := s.recorded?.map (· ++ [s.span s.pos (s.pos + bytes)]) })

/-- Read a word that has been matched. -/
def readWord (s : Session) (matched : List Char) : Outcome × Session :=
  match Keyword.ofSpelling? (String.ofList matched) with
  | some reserved => s.emit (.keyword reserved) "" (Text.width matched)
  | none => s.emit .identifier (String.ofList matched) (Text.width matched)

/-- Read a number that has been matched. If it has a fractional part, the text behind it is searched
for more of them. -/
def readNumber (s : Session) (matched : List Char) : Outcome × Session :=
  if '.' ∈ matched then
    (s.from? (s.pos + Text.width matched)).elim s.stop fun rest =>
      if fractions rest = 0 then s.emit .number (String.ofList matched) (Text.width matched)
      else
        (Text.slice? s.pos
            (s.pos + Text.width matched + Text.width (rest.take (fractions rest))) s.text).elim
          s.stop fun literal => s.refuse (.malformedNumber (String.ofList literal))
  else s.emit .number (String.ofList matched) (Text.width matched)

/-- Read a string whose opening quote has been matched. -/
def readString (s : Session) : Outcome × Session :=
  (s.from? (s.pos + 1)).elim s.stop fun body =>
    match StringBody.decode? body with
    | none => s.refuse .unterminatedString
    | some (value, n) => s.emit .string (String.ofList value) (1 + n)

/-- Read what a rule has matched. -/
def readMatch (s : Session) (rule : Rule) (matched : List Char) : Outcome × Session :=
  match rule with
  | .word => s.readWord matched
  | .number => s.readNumber matched
  | .separators => s.pass (Text.width matched)
  | .comment => s.pass (Text.width matched)
  | .quote => s.readString
  | .punct mark => s.emit (.punct mark) "" (Text.width mark.entry.literal.toList)

/-- Make one turn, with something left to read. -/
def turn (rules : List Rule) (s : Session) : Outcome × Session :=
  (s.from? s.pos).elim s.stop fun remaining =>
    match longest rules remaining with
    | none =>
        (s.from? s.pos).elim s.stop fun rest =>
          s.refuse (.invalidCharacter (rest.head?.getD '\x00'))
    | some (rule, n) =>
        (Text.slice? 0 (Text.width (remaining.take n)) remaining).elim s.stop (s.readMatch rule)

/-! ## It comes to an end -/

/-- A number is not skipped. -/
theorem readNumber_ne_skipped (s : Session) (matched : List Char) :
    (s.readNumber matched).1 ≠ .skipped := by
  unfold readNumber
  split
  · cases s.from? (s.pos + Text.width matched) with
    | none => simp [stop]
    | some rest =>
        rw [Option.elim_some]
        split
        · simp [emit]
        · cases Text.slice? s.pos
            (s.pos + Text.width matched + Text.width (rest.take (fractions rest))) s.text with
          | none => simp [stop]
          | some literal => simp [refuse]
  · simp [emit]

/-- Neither is a string. -/
theorem readString_ne_skipped (s : Session) : s.readString.1 ≠ .skipped := by
  unfold readString
  cases s.from? (s.pos + 1) with
  | none => simp [stop]
  | some body =>
      rw [Option.elim_some]
      split
      · simp [refuse]
      · simp [emit]

/-- Only what is matched is skipped. -/
theorem eq_pass_of_readMatch {s t : Session} {rule : Rule} {matched : List Char}
    (h : s.readMatch rule matched = (.skipped, t)) : t = (s.pass (Text.width matched)).2 := by
  have hfirst := congrArg Prod.fst h
  cases rule with
  | separators => exact (congrArg Prod.snd h).symm
  | comment => exact (congrArg Prod.snd h).symm
  | word =>
      simp only [readMatch, readWord] at hfirst
      split at hfirst <;> exact absurd hfirst (by simp [emit])
  | number => exact absurd hfirst (s.readNumber_ne_skipped matched)
  | quote => exact absurd hfirst s.readString_ne_skipped
  | punct mark => exact absurd hfirst (by simp [readMatch, emit])

/-- **A turn that skips something moves the cursor on.** -/
theorem pos_lt_of_turn {s t : Session} (h : s.turn rules = (.skipped, t)) :
    t.size = s.size ∧ s.pos < t.pos := by
  unfold turn at h
  cases hplace : s.from? s.pos with
  | none =>
      rw [hplace] at h
      exact absurd (congrArg Prod.fst h) (by simp [stop])
  | some remaining =>
      rw [hplace, Option.elim_some] at h
      cases hlongest : longest rules remaining with
      | none =>
          rw [hlongest] at h
          exact absurd (congrArg Prod.fst h) (by simp [refuse])
      | some best =>
          obtain ⟨rule, n⟩ := best
          obtain ⟨-, hreach, hpos⟩ := longest_mem hlongest
          have hlength := reach_le_length rule remaining
          have hne : Text.width (remaining.take n) ≠ 0 := by
            intro hzero
            have hnil := congrArg List.length (Text.width_eq_zero_iff.mp hzero)
            rw [List.length_take_of_le (by omega), List.length_nil] at hnil
            omega
          rw [hlongest] at h
          dsimp only at h
          rw [Text.slice?_take, Option.elim_some] at h
          rw [eq_pass_of_readMatch h]
          exact ⟨rfl, by simp only [pass]; omega⟩

/-- Make one turn, or return the end if there is nothing left to read. -/
def iteration (rules : List Rule) (s : Session) : Outcome × Session :=
  if s.atEnd then (.result (.ok ⟨.eof, "", s.span s.pos s.pos⟩), s.finish) else s.turn rules

/-- Nothing is skipped at the end, so the same holds of an iteration. -/
theorem pos_lt_of_iteration {s t : Session} (h : s.iteration rules = (.skipped, t)) :
    t.size = s.size ∧ s.pos < t.pos ∧ s.pos < s.size := by
  unfold iteration at h
  split at h
  · exact absurd (congrArg Prod.fst h) (by simp)
  · rename_i hend
    obtain ⟨hsize, hlt⟩ := pos_lt_of_turn h
    exact ⟨hsize, hlt, Nat.lt_of_not_le fun hle => hend (decide_eq_true hle)⟩

/-- What an iteration comes to, if the reader reads again behind what has been skipped. There is no
result where it is stuck. -/
def resume (step : Outcome × Session)
    (again : (t : Session) → step = (.skipped, t) → Option (Except Error Token) × Session) :
    Option (Except Error Token) × Session :=
  match step, again with
  | (.stuck, t), _ => (none, t)
  | (.skipped, t), again => again t rfl
  | (.result result, t), _ => (some result, t)

/-- Make turns until something is found, or the reader is stuck. -/
def readByOffsets (rules : List Rule) (s : Session) : Option (Except Error Token) × Session :=
  resume (s.iteration rules) fun t _hskip => readByOffsets rules t
termination_by s.size - s.pos
decreasing_by
  obtain ⟨hsize, hlt, hinside⟩ := pos_lt_of_iteration _hskip
  omega

/-- The next token, read by offsets. The session is the one at the end, or the one at which the
reader is stuck. -/
def nextByOffsets (rules : List Rule) (s : Session) : Option (Except Error Token) × Session :=
  match s.oversize? with
  | some error => (some (.error error), s.finish)
  | none => s.readByOffsets rules

/-! ## From a place it reads piece by piece -/

variable {s : Session} {back matched rest : List Char}

/-- What stands behind a part of the unread text is found behind its width. -/
theorem from?_ahead (h : s.remainder? = some (matched ++ rest)) :
    s.from? (s.pos + Text.width matched) = some rest := by
  obtain ⟨front, htext, hwidth⟩ := remainder?_eq_some_iff.mp h
  have hcut := Text.splitAtByte?_width_append (front ++ matched) rest
  rw [List.append_assoc, ← htext, Text.width_append, hwidth] at hcut
  rw [from?, hcut]
  rfl

/-- And the part is what lies between. -/
theorem slice?_ahead (h : s.remainder? = some (matched ++ rest)) :
    Text.slice? s.pos (s.pos + Text.width matched) s.text = some matched := by
  obtain ⟨front, htext, hwidth⟩ := remainder?_eq_some_iff.mp h
  rw [htext, ← hwidth]
  exact Text.slice?_append front matched rest

/-- What becomes of a piece that is cut off behind the cursor. -/
def take (s : Session) : Piece → Outcome × Session
  | .skip lexeme _ => s.pass (Text.width lexeme)
  | .found .eof => (.result (.ok ⟨.eof, "", s.span s.pos s.pos⟩), s.finish)
  | .found (.token kind value lexeme _) => s.emit kind value (Text.width lexeme)
  | .found (.mistake cause) => s.refuse cause

/-- A word is read as its piece. -/
theorem readWord_eq (s : Session) (matched rest : List Char) :
    s.readWord matched = s.take (Piece.ofWord matched rest) := by
  unfold readWord Piece.ofWord
  cases Keyword.ofSpelling? (String.ofList matched) with
  | none => rfl
  | some reserved => rfl

/-- So is a number. -/
theorem readNumber_eq (h : s.remainder? = some (matched ++ rest)) :
    s.readNumber matched = s.take (Piece.ofNumber matched rest) := by
  unfold readNumber Piece.ofNumber Piece.excess
  by_cases hpoint : '.' ∈ matched
  · rw [if_pos hpoint, if_pos hpoint, from?_ahead h, Option.elim_some]
    by_cases hfractions : fractions rest = 0
    · rw [if_pos hfractions, if_pos hfractions]
      rfl
    · -- the literal is the number with all of its fractional parts
      have hliteral : s.remainder? =
          some ((matched ++ rest.take (fractions rest)) ++ rest.drop (fractions rest)) := by
        rw [List.append_assoc, List.take_append_drop]
        exact h
      have hslice := slice?_ahead hliteral
      rw [Text.width_append, ← Nat.add_assoc] at hslice
      rw [if_neg hfractions, if_neg hfractions, hslice, Option.elim_some]
      rfl
  · rw [if_neg hpoint, if_neg hpoint, if_pos rfl]
    rfl

/-- And a string, whose quote is one byte wide. -/
theorem readString_eq (h : s.remainder? = some (['"'] ++ rest)) :
    s.readString = s.take (Piece.ofString ['"'] rest) := by
  have hbody : s.from? (s.pos + 1) = some rest := from?_ahead h
  unfold readString Piece.ofString StringBody.decode?
  rw [hbody, Option.elim_some]
  cases StringBody.read? rest with
  | none => rfl
  | some found => rfl

/-- **What a rule has matched is read as the piece that it is.** -/
theorem readMatch_eq {rule : Rule} (hrule : Describes rule matched)
    (h : s.remainder? = some (matched ++ rest)) :
    s.readMatch rule matched = s.take (Piece.ofLexeme rule matched rest) := by
  cases hrule with
  | word _ _ => exact readWord_eq s _ rest
  | number _ _ => exact readNumber_eq h
  | quote => exact readString_eq h
  | separators _ _ => rfl
  | comment _ => rfl
  | punct mark =>
      -- the cursor is moved over a text of the table, which is the one that has been matched
      rw [readMatch, mark.entry_eq]
      rfl

/-- **A turn takes the first piece of the text behind the cursor.** -/
theorem turn_eq (h : s.remainder? = some back) (hne : back ≠ []) :
    s.turn rules = s.take (Piece.cut rules back) := by
  have hplace : s.from? s.pos = some back := h
  obtain ⟨c, cs, rfl⟩ := List.exists_cons_of_ne_nil hne
  unfold turn Piece.cut
  rw [hplace, Option.elim_some]
  cases hlongest : longest rules (c :: cs) with
  | none => rfl
  | some best =>
      obtain ⟨rule, n⟩ := best
      obtain ⟨-, hreach, hpos⟩ := longest_mem hlongest
      have hdescribes : Describes rule ((c :: cs).take n) := by
        rw [hreach]
        exact describes_take_reach (by omega)
      dsimp only
      rw [Text.slice?_take, Option.elim_some]
      refine readMatch_eq hdescribes ?_
      rw [List.take_append_drop]
      exact h

/-- A finding is taken as it is settled. -/
theorem take_found (s : Session) (finding : Finding) :
    s.take (.found finding) =
      (.result (s.settle ⟨[], finding⟩).1, (s.settle ⟨[], finding⟩).2) := by
  have hrecorded : s.recordedAfter ⟨[], finding⟩ = s.recorded? := by
    simp [recordedAfter, spansFrom]
  cases finding with
  | eof => rw [settle_of_eof rfl, hrecorded]; rfl
  | mistake cause => rw [settle_of_mistake rfl, hrecorded]; rfl
  | token kind value lexeme rest => rw [settle_of_token rfl, hrecorded]; rfl

/-- To skip a lexeme and then settle a scan is to settle the scan with the lexeme in front. -/
theorem settle_pass (s : Session) (lexeme : List Char) (scan : Scan) :
    (s.pass (Text.width lexeme)).2.settle scan = s.settle (scan.after lexeme) := by
  have hfound : (s.pass (Text.width lexeme)).2.found scan = s.found (scan.after lexeme) := by
    simp only [found, pass, Scan.lead_after, Text.width_append, Nat.add_assoc]
  have hrecorded : (s.pass (Text.width lexeme)).2.recordedAfter scan =
      s.recordedAfter (scan.after lexeme) := by
    have hfile : (s.pass (Text.width lexeme)).2.file = s.file := rfl
    unfold recordedAfter
    rw [spansFrom_congr hfile]
    simp only [pass, Option.map_map]
    congr 1
    funext spans
    simp [Scan.after, spansFrom]
  cases hf : scan.finding with
  | eof =>
      have hf' : (scan.after lexeme).finding = .eof := hf
      rw [settle_of_eof hf, settle_of_eof hf', hfound, hrecorded]
      rfl
  | mistake cause =>
      have hf' : (scan.after lexeme).finding = .mistake cause := hf
      rw [settle_of_mistake hf, settle_of_mistake hf', hfound, hrecorded]
      rfl
  | token kind value front rest =>
      have hf' : (scan.after lexeme).finding = .token kind value front rest := hf
      rw [settle_of_token hf, settle_of_token hf', hfound, hrecorded]
      rfl

/-- The cursor is not at the end if there is text behind it. -/
theorem atEnd_eq_false (h : s.remainder? = some back) (hne : back ≠ []) : s.atEnd = false := by
  have hsum := pos_add_width h
  have hpos := Text.width_pos hne
  exact decide_eq_false (by omega)

/-- It is if there is none. -/
theorem atEnd_eq_true (h : s.remainder? = some []) : s.atEnd = true := by
  have hsum := pos_add_width h
  rw [Text.width_nil, Nat.add_zero] at hsum
  exact decide_eq_true (Nat.le_of_eq hsum.symm)

/-- **From a place, an iteration takes the first piece**, if only the end. -/
theorem iteration_eq (h : s.remainder? = some back) :
    s.iteration rules = s.take (Piece.cut rules back) := by
  unfold iteration
  by_cases hnil : back = []
  · subst hnil
    rw [if_pos (atEnd_eq_true h)]
    rfl
  · rw [if_neg (by rw [atEnd_eq_false h hnil]; exact Bool.false_ne_true), turn_eq h hnil]

/-- **From a place the reader finds what a scan finds.** -/
theorem readByOffsets_eq (h : s.remainder? = some back) :
    s.readByOffsets rules =
      (some (s.settle (Scan.of rules back)).1, (s.settle (Scan.of rules back)).2) := by
  fun_induction Scan.of rules back generalizing s with
  | case1 cs lexeme rest hcut ih =>
      obtain ⟨rfl, hne⟩ := Piece.append_of_cut_skip hcut
      have hplace : (s.pass (Text.width lexeme)).2.remainder? = some rest := from?_ahead h
      rw [readByOffsets, iteration_eq h, hcut, ← settle_pass, ← ih hplace]
      rfl
  | case2 cs finding hcut =>
      rw [readByOffsets, iteration_eq h, hcut, take_found]
      rfl

/-- With nothing left to read it finds the end, also past it. -/
theorem readByOffsets_of_atEnd (h : s.atEnd = true) :
    s.readByOffsets rules =
      (some (s.settle (Scan.of rules [])).1, (s.settle (Scan.of rules [])).2) := by
  have hscan : Scan.of rules [] = ⟨[], .eof⟩ :=
    Scan.of_eq_of_found (Piece.cut_eq_eof_iff.mpr rfl)
  have hend : s.iteration rules = s.take (.found .eof) := if_pos h
  rw [readByOffsets, hend, take_found, hscan]
  rfl

/-- Inside a character it is stuck. -/
theorem readByOffsets_of_misplaced (hend : s.atEnd = false) (h : s.remainder? = none) :
    s.readByOffsets rules = (none, s) := by
  have hplace : s.from? s.pos = none := h
  have hstuck : s.iteration rules = s.stop := by
    rw [iteration, hend, if_neg Bool.false_ne_true, turn, hplace, Option.elim_none]
  rw [readByOffsets, hstuck]
  rfl

/-- **Reading by offsets is reading.** In every session the reader returns what the next step
returns and leaves the same session behind, or it is stuck where there is no next step, and has not
changed the session. -/
theorem nextByOffsets_eq (rules : List Rule) (s : Session) :
    s.nextByOffsets rules =
      (s.nextToken? rules).elim (none, s) fun (result, after) => (some result, after) := by
  unfold nextByOffsets nextToken? unread?
  cases s.oversize? with
  | some error => rfl
  | none =>
      dsimp only
      cases hend : s.atEnd with
      | true => exact readByOffsets_of_atEnd hend
      | false =>
          cases hplace : s.remainder? with
          | some back => exact readByOffsets_eq hplace
          | none => exact readByOffsets_of_misplaced hend hplace

end Session

end ScriptFront
