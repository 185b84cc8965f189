import ScriptFront.Proofs.Scan
import ScriptFront.Session.Basic

/-!
# Where the cursor stands

A session is at a place in its source just if `remainder?` has an answer, and the answer is the
text behind the cursor. That text and the offset are all that a reading step looks at. This file
says so once: `nextToken?_eq` for a session that stands at a place, and then, for the step itself,
where the cursor goes (`remainder?_settle`) and which fields it touches.

The offsets of a source that is not too long are never cut off, so the positions in the results
are the true ones (`positionAt_of_le`).
-/

namespace ScriptFront

variable {rules : List Rule}

namespace Session

variable {s : Session} {scan : Scan} {back behind : List Char}

/-! ## Places -/

/-- The cursor is at a place if a part of the text is as wide as its offset. -/
theorem remainder?_eq_some_iff :
    s.remainder? = some back ↔ ∃ front, s.text = front ++ back ∧ Text.width front = s.pos := by
  unfold remainder?
  rw [Option.map_eq_some_iff]
  constructor
  · intro h
    obtain ⟨⟨front, rest⟩, hsplit, rfl⟩ := h
    exact ⟨front, Text.splitAtByte?_eq_some_iff.mp hsplit⟩
  · intro h
    obtain ⟨front, hsplit⟩ := h
    exact ⟨(front, back), Text.splitAtByte?_eq_some_iff.mpr hsplit, rfl⟩

/-- The cursor and the text behind it add up to the source. -/
theorem pos_add_width (h : s.remainder? = some back) : s.pos + Text.width back = s.size := by
  obtain ⟨front, htext, hwidth⟩ := remainder?_eq_some_iff.mp h
  rw [size, htext, Text.width_append, hwidth]

/-- From a place there is something to read, if only the end. -/
theorem unread?_eq (h : s.remainder? = some back) : s.unread? = some back := by
  unfold unread?
  split
  · rename_i hend
    have hsum := pos_add_width h
    have hle : s.size ≤ s.pos := of_decide_eq_true hend
    rw [Text.width_eq_zero_iff.mp (by omega : Text.width back = 0)]
  · exact h

/-- An offset that positions can count is not changed by them. -/
theorem positionAt_of_le {offset : Nat} (h : offset ≤ maxOffset) :
    s.positionAt offset = ⟨offset, s.file⟩ := by
  rw [positionAt, Position.clamped, Nat.min_eq_left h]

/-- A fresh session stands at the start of its source. -/
theorem remainder?_start (source : String) (file? : Option String) :
    (start source file?).remainder? = some source.toList :=
  remainder?_eq_some_iff.mpr ⟨[], rfl, rfl⟩

/-! ## One step -/

/-- The offset at which a scan of the text behind the cursor makes its finding. -/
def found (s : Session) (scan : Scan) : Nat := s.pos + Text.width scan.lead

/-- The spans kept when the lexemes that a scan skips are added to them. -/
def recordedAfter (s : Session) (scan : Scan) : Option (List Span) :=
  s.recorded?.map (· ++ s.spansFrom s.pos scan.skipped)

theorem settle_of_eof (h : scan.finding = .eof) :
    s.settle scan =
      (.ok ⟨.eof, "", s.span (s.found scan) (s.found scan)⟩,
        { s with pos := s.found scan, recorded? := s.recordedAfter scan, finished := true }) := by
  unfold settle
  rw [h]
  rfl

theorem settle_of_token {kind : Kind} {value : String} {lexeme rest : List Char}
    (h : scan.finding = .token kind value lexeme rest) :
    s.settle scan =
      (.ok ⟨kind, value, s.span (s.found scan) (s.found scan + Text.width lexeme)⟩,
        { s with
          pos := s.found scan + Text.width lexeme
          recorded? := s.recordedAfter scan }) := by
  unfold settle
  rw [h]
  rfl

theorem settle_of_mistake {cause : Cause} (h : scan.finding = .mistake cause) :
    s.settle scan =
      (.error ⟨cause, s.positionAt (s.found scan)⟩,
        { s with pos := s.found scan, recorded? := s.recordedAfter scan, finished := true }) := by
  unfold settle
  rw [h]
  rfl

/-- A step leaves the source alone. -/
@[simp] theorem settle_text (s : Session) (scan : Scan) : (s.settle scan).2.text = s.text := by
  unfold settle
  split <;> rfl

@[simp] theorem settle_size (s : Session) (scan : Scan) : (s.settle scan).2.size = s.size := by
  rw [size, settle_text]
  rfl

@[simp] theorem settle_file (s : Session) (scan : Scan) : (s.settle scan).2.file = s.file := by
  unfold settle
  split <;> rfl

@[simp] theorem settle_recorded? (s : Session) (scan : Scan) :
    (s.settle scan).2.recorded? = s.recordedAfter scan := by
  unfold settle
  split <;> rfl

/-- What a step finishes is finished, and it finishes nothing else unless there is no token. -/
theorem settle_finished (s : Session) (scan : Scan) :
    (s.settle scan).2.finished = (s.finished || scan.rest?.isNone) := by
  unfold settle Scan.rest?
  cases scan.finding with
  | eof => simp
  | mistake cause => simp
  | token kind value lexeme rest => simp

/-- What a step returns depends on where it is made and on nothing else. -/
theorem settle_result_congr {t : Session} (hpos : s.pos = t.pos) (hfile : s.file = t.file)
    (scan : Scan) :
    (s.settle scan).1 = (t.settle scan).1 ∧ (s.settle scan).2.pos = (t.settle scan).2.pos := by
  unfold settle span positionAt
  rw [hpos, hfile]
  cases scan.finding with
  | eof => exact ⟨rfl, rfl⟩
  | mistake cause => exact ⟨rfl, rfl⟩
  | token kind value lexeme rest => exact ⟨rfl, rfl⟩

/-- **A step moves the cursor to a place**, and says what is left to read there. -/
theorem remainder?_settle (h : s.remainder? = some back)
    (hreads : Scan.Reads rules back scan behind) :
    (s.settle scan).2.remainder? = some (scan.left behind) := by
  obtain ⟨front, htext, hwidth⟩ := remainder?_eq_some_iff.mp h
  rw [remainder?_eq_some_iff, settle_text, htext, ← hreads.append]
  unfold Scan.left Scan.rest?
  cases hf : scan.finding with
  | eof =>
      refine ⟨front ++ scan.lead, by simp, ?_⟩
      rw [settle_of_eof hf, Text.width_append, hwidth]
      rfl
  | mistake cause =>
      refine ⟨front ++ scan.lead, by simp, ?_⟩
      rw [settle_of_mistake hf, Text.width_append, hwidth]
      rfl
  | token kind value lexeme rest =>
      refine ⟨front ++ (scan.lead ++ lexeme), ?_, ?_⟩
      · rw [(hreads.token_append hf).1]
        simp
      · rw [settle_of_token hf, Text.width_append, Text.width_append, hwidth]
        simp only [found]
        omega

/-- The finding is made inside the source. -/
theorem found_add_width (h : s.remainder? = some back)
    (hreads : Scan.Reads rules back scan behind) :
    s.found scan + Text.width behind = s.size := by
  have hsum := pos_add_width h
  rw [← hreads.append, Text.width_append] at hsum
  unfold found
  omega

/-! ## The three ways to read -/

theorem oversize?_eq_none (h : s.size ≤ maxOffset) : s.oversize? = none := by
  unfold oversize?
  rw [if_neg (Nat.not_lt.mpr h)]

/-- **From a place, the next token is what a scan finds.** -/
theorem nextToken?_eq (hsize : s.size ≤ maxOffset) (h : s.remainder? = some back) :
    s.nextToken? rules = some (s.settle (Scan.of rules back)) := by
  unfold nextToken?
  rw [oversize?_eq_none hsize, unread?_eq h]
  rfl

/-- Until the session is done with, `next?` is `nextToken?`. -/
theorem next?_eq (hsize : s.size ≤ maxOffset) (h : s.remainder? = some back)
    (hopen : s.finished = false) :
    s.next? rules =
      some (some (s.settle (Scan.of rules back)).1, (s.settle (Scan.of rules back)).2) := by
  unfold next?
  rw [hopen, nextToken?_eq hsize h]
  rfl

theorem next?_of_finished (h : s.finished = true) : s.next? rules = some (none, s) := by
  unfold next?
  rw [if_pos h]

theorem collect?_eq (hsize : s.size ≤ maxOffset) (h : s.remainder? = some back)
    (hopen : s.finished = false) :
    s.collect? rules =
      some ((s.sweepText rules back).result, (s.sweepText rules back).session) := by
  unfold collect? sweep?
  rw [hopen, oversize?_eq_none hsize, unread?_eq h]
  rfl

theorem collect?_of_finished (h : s.finished = true) : s.collect? rules = some (.ok [], s) := by
  unfold collect? sweep?
  rw [if_pos h]
  rfl

end Session

end ScriptFront
