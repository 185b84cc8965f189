import ScriptFront.Proofs.Places
import ScriptFront.Proofs.Results

/-!
# Reading looks ahead only

What stands before the cursor has no say in what is read. Let a source be put behind another text,
and let the cursor be moved over that text: whatever is then asked of the session, it answers as if
the text were not there, and only its offsets are greater by the width of the text.

`relocate` puts a session behind a text, with its cursor and with the spans it has recorded. A step
and the move can be exchanged (`settle_relocate`), since a scan is given the text ahead and nothing
else, and offsets are added afterwards. So can a call and the move (`answer_relocate`), and so can a
run (`run_relocate`). Calls that are given an offset are left out: the offset means another place
when the session has been moved.

The moved session has to fit the offsets of positions. If it did not, some would be cut off.
-/

namespace ScriptFront

open Rule

namespace Call

/-- Whether an offset or a distance is given with a call. -/
def takesOffset : Call → Bool
  | .advance _ => true
  | .positionAt _ => true
  | .span _ _ => true
  | _ => false

/-- A call for which no distance is given does not jump. -/
theorem jumps_of_takesOffset {call : Call} (h : call.takesOffset = false) :
    call.jumps = false := by
  cases call with
  | advance bytes => exact absurd h (by simp [takesOffset])
  | _ => rfl

end Call

/-- The reply a number of bytes further on. -/
def Reply.shift (bytes : Nat) : Reply → Reply
  | token next => token (next.shift bytes)
  | error mistake => error (mistake.shift bytes)
  | tokens all => tokens (all.map (Token.shift bytes))
  | spans all => spans (all.map (Span.shift bytes))
  | position place => position (place.shift bytes)
  | span range => span (range.shift bytes)
  | reply => reply

theorem Reply.ofResult_shift (bytes : Nat) (result : Except Error Token) :
    ofResult (Session.shiftResult bytes result) = (ofResult result).shift bytes := by
  cases result <;> rfl

/-- A session that is at a place elsewhere is at one here. -/
theorem Reply.eq_misplaced_of_shift {bytes : Nat} {reply : Reply}
    (h : reply.shift bytes = .misplaced) : reply = .misplaced := by
  cases reply with
  | misplaced => rfl
  | _ => exact absurd h (by simp [shift])

namespace Session

variable {rules : List Rule} {s : Session} {scan : Scan} {front back behind : List Char}

/-- The session of the same source behind another text, with the cursor where it was in the
source. -/
def relocate (front : List Char) (s : Session) : Session where
  text := front ++ s.text
  file := s.file
  pos := s.pos + Text.width front
  recorded? := s.recorded?.map (·.map (Span.shift (Text.width front)))
  finished := s.finished

@[simp] theorem relocate_size (front : List Char) (s : Session) :
    (s.relocate front).size = Text.width front + s.size :=
  Text.width_append front s.text

@[simp] theorem relocate_trivia (front : List Char) (s : Session) :
    (s.relocate front).trivia = s.trivia.map (Span.shift (Text.width front)) := by
  unfold trivia relocate
  cases s.recorded? <;> rfl

@[simp] theorem relocate_atEnd (front : List Char) (s : Session) :
    (s.relocate front).atEnd = s.atEnd := by
  have hle : (s.relocate front).size ≤ (s.relocate front).pos ↔ s.size ≤ s.pos := by
    rw [relocate_size]
    show Text.width front + s.size ≤ s.pos + Text.width front ↔ s.size ≤ s.pos
    omega
  exact decide_eq_decide.mpr hle

/-- The same text is ahead of the cursor. -/
theorem remainder?_relocate (front : List Char) (h : s.remainder? = some back) :
    (s.relocate front).remainder? = some back := by
  obtain ⟨read, htext, hwidth⟩ := remainder?_eq_some_iff.mp h
  refine remainder?_eq_some_iff.mpr ⟨front ++ read, ?_, ?_⟩
  · rw [relocate, htext, List.append_assoc]
  · rw [relocate, Text.width_append, hwidth, Nat.add_comm]

theorem found_relocate (front : List Char) (s : Session) (scan : Scan) :
    (s.relocate front).found scan = s.found scan + Text.width front :=
  Nat.add_right_comm _ _ _

/-! ## One step -/

/-- The spans of lexemes are further on, as long as none is cut off. -/
theorem spansFrom_relocate {offset : Nat} {lexemes : List (List Char)}
    (h : offset + Text.width lexemes.flatten + Text.width front ≤ maxOffset) :
    (s.relocate front).spansFrom (offset + Text.width front) lexemes =
      (s.spansFrom offset lexemes).map (Span.shift (Text.width front)) := by
  induction lexemes generalizing offset with
  | nil => rfl
  | cons lexeme lexemes ih =>
      rw [List.flatten_cons, Text.width_append] at h
      have hfirst : (s.relocate front).span (offset + Text.width front)
          (offset + Text.width lexeme + Text.width front) =
            (s.span offset (offset + Text.width lexeme)).shift (Text.width front) :=
        span_shift (by omega) (by omega)
      rw [spansFrom, Nat.add_right_comm, hfirst, ih (by omega)]
      rfl

/-- **A step can be made before the session is put behind a text, or after.** -/
theorem settle_relocate (hsize : Text.width front + s.size ≤ maxOffset)
    (hplace : s.remainder? = some back) (hreads : Scan.Reads rules back scan behind) :
    (s.relocate front).settle scan =
      (shiftResult (Text.width front) (s.settle scan).1, (s.settle scan).2.relocate front) := by
  have hfound := found_add_width hplace hreads
  have hle : s.found scan + Text.width front ≤ maxOffset := by omega
  have hrecorded : (s.relocate front).recordedAfter scan =
      (s.recordedAfter scan).map (·.map (Span.shift (Text.width front))) := by
    have hspans : (s.relocate front).spansFrom (s.relocate front).pos scan.skipped =
        (s.spansFrom s.pos scan.skipped).map (Span.shift (Text.width front)) :=
      spansFrom_relocate hle
    unfold recordedAfter
    rw [hspans, Session.relocate]
    cases s.recorded? with
    | none => rfl
    | some recorded => simp
  cases hf : scan.finding with
  | eof =>
      have hspan := @span_shift s _ _ _ hle hle
      rw [settle_of_eof hf, settle_of_eof hf, hrecorded, found_relocate, shiftResult, Token.shift,
        ← hspan]
      rfl
  | mistake cause =>
      have hposition := @positionAt_shift s _ _ hle
      rw [settle_of_mistake hf, settle_of_mistake hf, hrecorded, found_relocate, shiftResult,
        Error.shift, ← hposition]
      rfl
  | token kind value lexeme rest =>
      -- the token ends inside the source, so its end is not cut off either
      rw [(hreads.token_append hf).1, Text.width_append] at hfound
      have hend : s.found scan + Text.width lexeme + Text.width front ≤ maxOffset := by omega
      have hspan := @span_shift s _ _ _ hle hend
      rw [settle_of_token hf, settle_of_token hf, hrecorded, found_relocate, shiftResult,
        Token.shift, ← hspan, Nat.add_right_comm]
      rfl

/-! ## Calls and runs -/

/-- Reading to the end gives the same results further on, and ends behind the text. -/
theorem sweepText_relocate (hsize : Text.width front + s.size ≤ maxOffset)
    (hplace : s.remainder? = some back) :
    ((s.relocate front).sweepText rules back).results =
        (s.sweepText rules back).results.map (shiftResult (Text.width front))
      ∧ ((s.relocate front).sweepText rules back).session =
        (s.sweepText rules back).session.relocate front := by
  induction back using Scan.token_induction rules generalizing s with
  | last cs hrest =>
      obtain ⟨behind, hreads⟩ := Scan.of_reads rules cs
      rw [(sweepText_of_rest?_none hrest).1, (sweepText_of_rest?_none hrest).1,
        (sweepText_of_rest?_none hrest).2, (sweepText_of_rest?_none hrest).2,
        settle_relocate hsize hplace hreads]
      exact ⟨rfl, rfl⟩
  | token cs rest hrest ih =>
      obtain ⟨behind, hreads⟩ := Scan.of_reads rules cs
      have hplace' := remainder?_settle hplace hreads
      rw [Scan.left, hrest, Option.getD_some] at hplace'
      obtain ⟨hresults, hsession⟩ := ih (by rw [settle_size]; exact hsize) hplace'
      rw [(sweepText_of_rest?_some hrest).1, (sweepText_of_rest?_some hrest).1,
        (sweepText_of_rest?_some hrest).2, (sweepText_of_rest?_some hrest).2,
        settle_relocate hsize hplace hreads, hresults, hsession]
      exact ⟨rfl, rfl⟩

/-- So its answer is the same further on. -/
theorem result_relocate (hsize : Text.width front + s.size ≤ maxOffset)
    (hplace : s.remainder? = some back) :
    Reply.ofResults ((s.relocate front).sweepText rules back).result =
      (Reply.ofResults (s.sweepText rules back).result).shift (Text.width front) := by
  rw [Sweep.result_eq, Sweep.result_eq, (sweepText_relocate hsize hplace).1, mapM_id_shift]
  cases (s.sweepText rules back).results.mapM id <;> rfl

/-- **A session behind a text answers as it would without it**, further on. -/
theorem answer_relocate (hsize : Text.width front + s.size ≤ maxOffset)
    (hplace : s.remainder? = some back) {call : Call} (hcall : call.takesOffset = false) :
    (s.relocate front).answer rules call =
      ((s.answer rules call).1.shift (Text.width front), (s.answer rules call).2.relocate front) := by
  have hsize' : s.size ≤ maxOffset := by omega
  have hsize'' : (s.relocate front).size ≤ maxOffset := by rw [relocate_size]; exact hsize
  have hplace' := remainder?_relocate front hplace
  obtain ⟨behind, hreads⟩ := Scan.of_reads rules back
  have hsettle := settle_relocate hsize hplace hreads
  unfold answer
  cases call with
  | nextToken =>
      rw [nextToken?_eq hsize'' hplace', nextToken?_eq hsize' hplace, hsettle]
      dsimp only
      rw [Reply.ofResult_shift]
  | next =>
      cases hfinished : s.finished with
      | true =>
          rw [next?_of_finished hfinished, next?_of_finished (s := s.relocate front) hfinished]
          rfl
      | false =>
          rw [next?_eq hsize' hplace hfinished, next?_eq hsize'' hplace' hfinished, hsettle]
          dsimp only
          rw [Reply.ofResult_shift]
  | collect =>
      cases hfinished : s.finished with
      | true =>
          rw [collect?_of_finished hfinished, collect?_of_finished (s := s.relocate front) hfinished]
          rfl
      | false =>
          rw [collect?_eq hsize' hplace hfinished, collect?_eq hsize'' hplace' hfinished]
          dsimp only
          rw [result_relocate hsize hplace, (sweepText_relocate hsize hplace).2]
  | trivia =>
      rw [relocate_trivia]
      rfl
  | char =>
      rw [hplace, hplace']
      rfl
  | remainder =>
      rw [hplace, hplace']
      rfl
  | atEnd =>
      rw [relocate_atEnd]
      rfl
  | recordTrivia => rfl
  | advance bytes => exact absurd hcall (by simp [Call.takesOffset])
  | positionAt offset => exact absurd hcall (by simp [Call.takesOffset])
  | span start stop => exact absurd hcall (by simp [Call.takesOffset])

/-- **So it does over a whole run.** -/
theorem run_relocate {calls : List Call} (hsize : Text.width front + s.size ≤ maxOffset)
    (hplace : s.remainder? = some back) (hcalls : ∀ call ∈ calls, call.takesOffset = false) :
    (s.relocate front).run rules calls =
      (s.run rules calls).map fun step =>
        (step.1.shift (Text.width front), step.2.relocate front) := by
  induction calls generalizing s back with
  | nil => rfl
  | cons call calls ih =>
      have hcall := hcalls call List.mem_cons_self
      obtain ⟨rest, hplace', -⟩ := place_answer rules (by omega : s.size ≤ maxOffset) hplace
        (Call.jumps_of_takesOffset hcall)
      rw [run_cons, run_cons, List.map_cons, answer_relocate hsize hplace hcall]
      exact congrArg (List.cons _) (ih (by rw [answer_size]; exact hsize) hplace'
        fun c hc => hcalls c (List.mem_cons_of_mem _ hc))

/-- **Only the text ahead counts.** Take any place in a source that is not too long, the end
included. A fresh session that is moved there, and a fresh session of what stands behind the place,
are asked the same: for tokens, for all that is left, to record what is skipped, for what has been
recorded. They answer alike, except that each offset in an answer of the first is greater by that of
the place. So are its cursor and its recorded spans after each call, both are done with at the same
time, and neither is ever at no place. -/
theorem run_from_place (source : String) (file? : Option String)
    (hsize : Text.width source.toList ≤ maxOffset) {offset : Nat} {front back : List Char}
    (hplace : Text.splitAtByte? offset source.toList = some (front, back)) {calls : List Call}
    (hcalls : ∀ call ∈ calls, call.takesOffset = false) :
    let moved := ((start source file?).advance offset).run table calls
    let alone := (start (String.ofList back) file?).run table calls
    (moved.map fun step => (step.1, step.2.pos, step.2.trivia, step.2.finished)) =
        (alone.map fun step =>
          (step.1.shift offset, step.2.pos + offset, step.2.trivia.map (Span.shift offset),
            step.2.finished))
      ∧ ∀ step ∈ moved ++ alone, step.1 ≠ .misplaced := by
  obtain ⟨htext, rfl⟩ := Text.splitAtByte?_eq_some_iff.mp hplace
  have hmoved : (start source file?).advance (Text.width front) =
      (start (String.ofList back) file?).relocate front := by
    unfold relocate start advance
    rw [htext, String.toList_ofList]
    rfl
  have hwidth : Text.width front + (start (String.ofList back) file?).size ≤ maxOffset := by
    rw [htext, Text.width_append] at hsize
    rw [size, start, String.toList_ofList]
    exact hsize
  have hstart := remainder?_start (String.ofList back) file?
  intro moved alone
  have hrun : moved = alone.map fun step =>
      (step.1.shift (Text.width front), step.2.relocate front) := by
    rw [← run_relocate hwidth hstart hcalls, ← hmoved]
  have halone : ∀ step ∈ alone, step.1 ≠ .misplaced := by
    intro step hstep
    -- each step is made at a place, since none of the calls before it jumps
    obtain ⟨before, call, later, rfl, rfl⟩ := mem_run_iff.mp hstep
    have hjumps : ∀ c ∈ before, c.jumps = false :=
      fun c hc => Call.jumps_of_takesOffset (hcalls c (List.mem_append_left _ hc))
    obtain ⟨rest, hrest, -⟩ := place_after table
      (by omega : (start (String.ofList back) file?).size ≤ maxOffset) hstart hjumps
    exact answer_ne_misplaced (by rw [after_size]; omega) hrest call
  constructor
  · rw [hrun, List.map_map]
    refine List.map_congr_left fun step _ => ?_
    simp only [Function.comp_apply, relocate_trivia]
    rfl
  · intro step hstep
    rcases List.mem_append.mp hstep with hstep | hstep
    · rw [hrun] at hstep
      obtain ⟨other, hother, rfl⟩ := List.mem_map.mp hstep
      intro hmisplaced
      exact halone other hother (Reply.eq_misplaced_of_shift hmisplaced)
    · exact halone step hstep

/-- A comment and a malformed number, read from the middle of a source by a session that records,
and twice. -/
theorem run_from_place_number :
    Text.width "é //x\n1.2.3".toList ≤ maxOffset
      ∧ Text.splitAtByte? 2 "é //x\n1.2.3".toList = some (['é'], " //x\n1.2.3".toList)
      ∧ (∀ call ∈ [Call.recordTrivia, .next, .nextToken], call.takesOffset = false)
      ∧ ((((start "é //x\n1.2.3" none).advance 2).run table [.recordTrivia, .next, .nextToken]).map
          fun step => (step.1, step.2.pos, step.2.trivia, step.2.finished)) =
        [(.done, 2, [], false),
          (.error ⟨.malformedNumber "1.2.3", ⟨7, "shell"⟩⟩, 7,
            [⟨⟨2, "shell"⟩, ⟨3, "shell"⟩⟩, ⟨⟨3, "shell"⟩, ⟨6, "shell"⟩⟩,
              ⟨⟨6, "shell"⟩, ⟨7, "shell"⟩⟩], true),
          (.error ⟨.malformedNumber "1.2.3", ⟨7, "shell"⟩⟩, 7,
            [⟨⟨2, "shell"⟩, ⟨3, "shell"⟩⟩, ⟨⟨3, "shell"⟩, ⟨6, "shell"⟩⟩,
              ⟨⟨6, "shell"⟩, ⟨7, "shell"⟩⟩], true)] := by
  have hsize : Text.width "é //x\n1.2.3".toList ≤ maxOffset := by decide
  have hplace : Text.splitAtByte? 2 "é //x\n1.2.3".toList = some (['é'], " //x\n1.2.3".toList) := by
    decide
  have hcalls : ∀ call ∈ [Call.recordTrivia, .next, .nextToken], call.takesOffset = false := by
    decide
  refine ⟨hsize, hplace, hcalls, ?_⟩
  rw [(run_from_place "é //x\n1.2.3" none hsize hplace hcalls).1]
  decide +kernel

end Session

end ScriptFront
