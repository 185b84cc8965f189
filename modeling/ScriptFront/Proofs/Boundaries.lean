import ScriptFront.Proofs.Agreement
import ScriptFront.Proofs.Slicing
import ScriptFront.Proofs.Trivia

/-!
# Boundaries between characters

An offset in a source is a boundary if no character goes on across it. That is a property of the
bytes of the source (`IsBoundary`), and it comes to the same as being the width of a start of the
text (`isBoundary_iff`). So the cursor is at a place just if it is at a boundary, and this file says
all that was said of places once more in bytes.

There are calls that have no answer where the cursor is not at a boundary, and no others
(`Session.answer_eq_misplaced_iff`). At a boundary every call has one. A session that has come to a
boundary, by whatever jumps, is `Aligned`: what it has recorded lies on boundaries too. Each call
that does not jump keeps it so, and what it answers lies on boundaries (`Aligned.answer`,
`Aligned.reply`), because everything that is read from a place begins and ends at a width of what
stands in front of it (`Aligned.results`). A run follows by induction.
-/

namespace ScriptFront

open Rule

variable {rules : List Rule} {source : String} {offset : Nat}

/-- No character of the source has bytes on both sides of the offset, which is at most its size. -/
def IsBoundary (source : String) (offset : Nat) : Prop := String.Pos.Raw.IsValid source ⟨offset⟩

instance : Decidable (IsBoundary source offset) :=
  inferInstanceAs (Decidable (String.Pos.Raw.IsValid source ⟨offset⟩))

/-- The width of a text is the number of its bytes. -/
theorem Text.width_eq_utf8ByteSize (cs : List Char) :
    width cs = (String.ofList cs).utf8ByteSize := by
  induction cs with
  | nil => rfl
  | cons c cs ih =>
      rw [String.ofList_cons, String.utf8ByteSize_append, String.utf8ByteSize_singleton, ← ih]
      rfl

/-- **A boundary is the width of a start of the text.** -/
theorem isBoundary_iff :
    IsBoundary source offset ↔
      ∃ front back, source.toList = front ++ back ∧ Text.width front = offset := by
  unfold IsBoundary
  rw [String.Pos.Raw.isValid_iff_exists_append]
  constructor
  · intro h
    obtain ⟨front, back, rfl, hoffset⟩ := h
    refine ⟨front.toList, back.toList, String.toList_append, ?_⟩
    rw [Text.width_eq_utf8ByteSize, String.ofList_toList]
    exact (congrArg String.Pos.Raw.byteIdx hoffset).symm
  · intro h
    obtain ⟨front, back, htext, rfl⟩ := h
    refine ⟨String.ofList front, String.ofList back, ?_, ?_⟩
    · rw [← String.ofList_append, ← htext, String.ofList_toList]
    · rw [Text.width_eq_utf8ByteSize]
      rfl

/-- A boundary lies in the source. -/
theorem IsBoundary.le_width (h : IsBoundary source offset) : offset ≤ Text.width source.toList := by
  obtain ⟨front, back, htext, rfl⟩ := isBoundary_iff.mp h
  rw [htext, Text.width_append]
  omega

/-- Both ends of the span are boundaries. -/
def Span.OnBoundaries (source : String) (span : Span) : Prop :=
  IsBoundary source span.start.offset ∧ IsBoundary source span.stop.offset

/-- The span of a lexeme lies on boundaries. -/
theorem Span.Marks.onBoundaries {span : Span} {file : String} {lexeme rest : List Char}
    (h : span.Marks file source.toList lexeme rest) : span.OnBoundaries source := by
  obtain ⟨front, htext, rfl⟩ := h
  refine ⟨isBoundary_iff.mpr ⟨front, lexeme ++ rest, htext, rfl⟩, ?_⟩
  refine isBoundary_iff.mpr ⟨front ++ lexeme, rest, ?_, Text.width_append _ _⟩
  rw [List.append_assoc]
  exact htext

/-- The offsets of the tokens, the error or the skipped spans that a reply has are boundaries. -/
def Reply.OnBoundaries (source : String) : Reply → Prop
  | token next => next.span.OnBoundaries source
  | error mistake => IsBoundary source mistake.position.offset
  | tokens all => ∀ next ∈ all, next.span.OnBoundaries source
  | spans skipped => ∀ span ∈ skipped, span.OnBoundaries source
  | _ => True

/-- A result is an answer. -/
theorem Reply.ofResult_ne_misplaced (result : Except Error Token) :
    ofResult result ≠ misplaced := by
  cases result <;> simp [ofResult]

/-- So are all results together. -/
theorem Reply.ofResults_ne_misplaced (results : Except Error (List Token)) :
    ofResults results ≠ misplaced := by
  cases results <;> simp [ofResults]

namespace Session

variable {s : Session} {back : List Char}

/-! ## Where there is no answer -/

/-- The cursor is at a place just if it is at a boundary. -/
theorem isBoundary_pos_iff (htext : s.text = source.toList) :
    IsBoundary source s.pos ↔ ∃ back, s.remainder? = some back := by
  rw [isBoundary_iff, ← htext]
  constructor
  · intro h
    obtain ⟨front, back, hsplit, hwidth⟩ := h
    exact ⟨back, remainder?_eq_some_iff.mpr ⟨front, hsplit, hwidth⟩⟩
  · intro h
    obtain ⟨back, hplace⟩ := h
    obtain ⟨front, hsplit, hwidth⟩ := remainder?_eq_some_iff.mp hplace
    exact ⟨front, back, hsplit, hwidth⟩

theorem remainder?_eq_none_iff (htext : s.text = source.toList) :
    s.remainder? = none ↔ ¬ IsBoundary source s.pos := by
  rw [isBoundary_pos_iff htext]
  cases s.remainder? with
  | none => simp
  | some back => simp

/-- There is nothing to read, not even the end, just inside a character. -/
theorem unread?_eq_none_iff (htext : s.text = source.toList) :
    s.unread? = none ↔ s.pos < Text.width source.toList ∧ ¬ IsBoundary source s.pos := by
  have hsize : s.size = Text.width source.toList := congrArg Text.width htext
  unfold unread?
  by_cases hend : s.atEnd = true
  · have hle : s.size ≤ s.pos := of_decide_eq_true hend
    rw [if_pos hend]
    constructor
    · intro h
      exact absurd h (by simp)
    · rintro ⟨hlt, -⟩
      omega
  · have hlt : ¬ s.size ≤ s.pos := fun hle => hend (decide_eq_true hle)
    rw [if_neg hend, remainder?_eq_none_iff htext]
    constructor
    · intro h
      exact ⟨by omega, h⟩
    · rintro ⟨-, h⟩
      exact h

/-- **The calls that have no answer.** Those for tokens need something to read, unless the session
is done with, and those for the text need a place. -/
theorem answer_eq_misplaced_iff (rules : List Rule) (hsize : s.size ≤ maxOffset) (call : Call) :
    (s.answer rules call).1 = .misplaced ↔
      (call = .nextToken ∨ (call = .next ∨ call = .collect) ∧ s.finished = false)
          ∧ s.unread? = none
        ∨ (call = .char ∨ call = .remainder) ∧ s.remainder? = none := by
  have hoversize := oversize?_eq_none hsize
  unfold answer
  cases call with
  | nextToken =>
      rw [nextToken?, hoversize]
      cases s.unread? with
      | none => simp
      | some rest => simp [Reply.ofResult_ne_misplaced]
  | next =>
      rw [next?, nextToken?, hoversize]
      cases s.finished with
      | true => simp
      | false =>
          cases s.unread? with
          | none => simp
          | some rest => simp [Reply.ofResult_ne_misplaced]
  | collect =>
      rw [collect?, sweep?, hoversize]
      cases s.finished with
      | true => simp [Reply.ofResults_ne_misplaced]
      | false =>
          cases s.unread? with
          | none => simp
          | some rest => simp [Reply.ofResults_ne_misplaced]
  | char =>
      cases s.remainder? with
      | none => simp
      | some rest => simp
  | remainder =>
      cases s.remainder? with
      | none => simp
      | some rest => simp
  | _ => simp

/-- A call without an answer changes nothing. -/
theorem answer_of_misplaced {call : Call} (h : (s.answer rules call).1 = .misplaced) :
    (s.answer rules call).2 = s := by
  unfold answer at h ⊢
  cases call with
  | nextToken =>
      cases hnext : s.nextToken? rules with
      | none => rfl
      | some step =>
          rw [hnext] at h
          exact absurd h (Reply.ofResult_ne_misplaced step.1)
  | next =>
      cases hnext : s.next? rules with
      | none => rfl
      | some step =>
          obtain ⟨result?, after⟩ := step
          rw [hnext] at h
          cases result? with
          | none => exact absurd h (by simp)
          | some result => exact absurd h (Reply.ofResult_ne_misplaced result)
  | collect =>
      cases hcollect : s.collect? rules with
      | none => rfl
      | some step =>
          rw [hcollect] at h
          exact absurd h (Reply.ofResults_ne_misplaced step.1)
  | char => cases s.remainder? <;> rfl
  | remainder => cases s.remainder? <;> rfl
  | advance bytes => exact absurd h (by simp)
  | recordTrivia => exact absurd h (by simp)
  | _ => rfl

/-! ## From boundary to boundary -/

/-- A session in a source, at a boundary, with all that it has recorded on boundaries. -/
structure Aligned (source : String) (s : Session) : Prop where
  text : s.text = source.toList
  size : s.size ≤ maxOffset
  pos : IsBoundary source s.pos
  trivia : ∀ span ∈ s.trivia, span.OnBoundaries source

namespace Aligned

/-- **What is read from a boundary lies on boundaries.** -/
theorem results (h : Aligned source s) (hplace : s.remainder? = some back)
    {result : Except Error Token} (hmem : result ∈ (s.sweepText table back).results) :
    (Reply.ofResult result).OnBoundaries source := by
  have hsum := pos_add_width hplace
  have hsize := h.size
  cases result with
  | ok token =>
      obtain ⟨front, lexeme, rest, rfl, hspan, -⟩ := exists_of_ok_mem hmem
      have hmarks := marks_ahead hplace
      simp only [Text.width_append] at hsum
      rw [h.text] at hmarks
      rw [span_of_le (Nat.le_add_right _ _) (by omega)] at hspan
      show token.span.OnBoundaries source
      rw [hspan]
      exact hmarks.onBoundaries
  | error error =>
      obtain ⟨front, c, rest, rfl, -, -, hposition⟩ := exists_of_error_mem hmem
      -- a mistake stands where a lexeme could, so an empty one marks its place
      have hempty : s.remainder? = some (front ++ ([] ++ c :: rest)) := hplace
      have hmarks := marks_ahead hempty
      simp only [Text.width_append] at hsum
      rw [h.text] at hmarks
      show IsBoundary source error.position.offset
      rw [hposition, positionAt_of_le (by omega)]
      exact hmarks.onBoundaries.1

/-- **At a boundary every call is answered, and the answer lies on boundaries.** -/
theorem reply (h : Aligned source s) (call : Call) :
    (s.answer table call).1 ≠ .misplaced ∧ (s.answer table call).1.OnBoundaries source := by
  obtain ⟨back, hplace⟩ := (isBoundary_pos_iff h.text).mp h.pos
  refine ⟨answer_ne_misplaced h.size hplace call, ?_⟩
  have hpulls : call.pulls = true → (s.answer table call).1.OnBoundaries source := by
    intro hpull
    rcases @answer_of_pulls table s back h.size hplace call hpull with hanswer | hanswer
    · rw [hanswer]
      exact h.results hplace (settle_mem_results table s back)
    · rw [hanswer]
      trivial
  cases call with
  | nextToken => exact hpulls rfl
  | next => exact hpulls rfl
  | collect =>
      unfold Session.answer
      cases hfinished : s.finished with
      | true =>
          rw [collect?_of_finished hfinished]
          exact fun next hnext => absurd hnext List.not_mem_nil
      | false =>
          rw [collect?_eq h.size hplace hfinished]
          dsimp only
          cases hresult : (s.sweepText table back).result with
          | ok all =>
              intro next hnext
              exact h.results hplace (Sweep.mem_results hresult hnext)
          | error error => exact h.results hplace (Sweep.error_mem_results hresult)
  | trivia => exact h.trivia
  | char =>
      unfold answer
      rw [hplace]
      trivial
  | remainder =>
      unfold answer
      rw [hplace]
      trivial
  | _ => trivial

/-- **A call that does not jump leads from boundary to boundary.** -/
theorem answer (h : Aligned source s) {call : Call} (hjump : call.jumps = false) :
    Aligned source (s.answer table call).2 := by
  obtain ⟨back, hplace⟩ := (isBoundary_pos_iff h.text).mp h.pos
  obtain ⟨rest, hrest, -⟩ := place_answer table h.size hplace hjump
  have htext : (s.answer table call).2.text = source.toList :=
    (answer_source table s call).1.trans h.text
  refine ⟨htext, (answer_size table s call).trans_le h.size,
    (isBoundary_pos_iff htext).mpr ⟨rest, hrest⟩, ?_⟩
  intro span hspan
  rcases trivia_answer h.size call with hnil | htrivia
  · rw [hnil] at hspan
    exact absurd hspan List.not_mem_nil
  · rw [htrivia] at hspan
    rcases List.mem_append.mp hspan with hold | hnew
    · exact h.trivia span hold
    · obtain ⟨⟨lexeme, back, hmarks, -⟩, -⟩ := marks_of_mem_skippedBy hnew
      rw [h.text] at hmarks
      exact hmarks.onBoundaries

/-- So does a run. -/
theorem after (h : Aligned source s) {calls : List Call}
    (hjumps : ∀ call ∈ calls, call.jumps = false) : Aligned source (s.after table calls) := by
  refine after_induction (P := Aligned source) h ?_
  intro t call hcall ht
  exact ht.answer (hjumps call hcall)

/-- All replies of a run without jumps are answers that lie on boundaries. -/
theorem run (h : Aligned source s) {calls : List Call}
    (hjumps : ∀ call ∈ calls, call.jumps = false) :
    ∀ step ∈ s.run table calls, step.1 ≠ .misplaced ∧ step.1.OnBoundaries source := by
  intro step hstep
  obtain ⟨before, call, later, rfl, rfl⟩ := mem_run_iff.mp hstep
  have hbefore : ∀ c ∈ before, c.jumps = false := by
    intro c hc
    exact hjumps c (List.mem_append_left _ hc)
  exact (h.after hbefore).reply call

end Aligned

/-- However it has been reached, a session at a boundary has recorded nothing but what lies on
boundaries. -/
theorem aligned_after (source : String) (file? : Option String)
    (hsize : Text.width source.toList ≤ maxOffset) (calls : List Call)
    (hpos : IsBoundary source ((start source file?).after table calls).pos) :
    Aligned source ((start source file?).after table calls) := by
  obtain ⟨htext, -⟩ := after_source table (start source file?) calls
  refine ⟨htext, (after_size table (start source file?) calls).trans_le hsize, hpos, ?_⟩
  intro span hspan
  obtain ⟨lexeme, rest, hmarks, -⟩ :=
    (recorded_after source file? hsize calls).marks span hspan
  rw [htext] at hmarks
  exact hmarks.onBoundaries

/-- A run does not go back. -/
theorem pos_le_after (hsize : s.size ≤ maxOffset) (calls : List Call) :
    s.pos ≤ (s.after rules calls).pos := by
  have hkept : (s.after rules calls).size ≤ maxOffset ∧ s.pos ≤ (s.after rules calls).pos := by
    refine after_induction (P := fun t => t.size ≤ maxOffset ∧ s.pos ≤ t.pos) ?_ ?_
    · exact ⟨hsize, Nat.le_refl _⟩
    · intro t call _ ht
      exact ⟨(answer_size rules t call).trans_le ht.1, Nat.le_trans ht.2 (pos_le_answer ht.1 call)⟩
  exact hkept.2

/-- **Just where there is no answer, and that boundaries are kept.** Whatever calls have been made
of a session, jumps among them, reading the next token fails just if the cursor is inside a
character, and the text behind the cursor is refused just if it is there or past the end. A call
that fails changes nothing; a reader that cuts the source at each offset it needs fails in the same
sessions, and before it has changed anything. From a boundary, no call fails until the next jump.
The cursor does not go back and is at a boundary again after each call, and all the tokens, errors
and skipped spans that are returned or kept lie on boundaries. So in a run without jumps no call
fails. -/
theorem fails_only_off_boundaries (source : String) (file? : Option String)
    (hsize : Text.width source.toList ≤ maxOffset) (calls : List Call) :
    let s := (start source file?).after table calls
    ((s.answer table .nextToken).1 = .misplaced ↔
        s.pos < Text.width source.toList ∧ ¬ IsBoundary source s.pos)
      ∧ s.answer table .nextToken =
        ((s.nextByOffsets table).1.elim .misplaced .ofResult, (s.nextByOffsets table).2)
      ∧ (∀ call, call = .char ∨ call = .remainder →
        ((s.answer table call).1 = .misplaced ↔
          Text.width source.toList < s.pos ∨ ¬ IsBoundary source s.pos))
      ∧ (∀ call, (s.answer table call).1 = .misplaced → (s.answer table call).2 = s)
      ∧ (IsBoundary source s.pos → ∀ more : List Call, (∀ call ∈ more, call.jumps = false) →
        let t := s.after table more
        (IsBoundary source t.pos ∧ s.pos ≤ t.pos ∧ t.pos ≤ Text.width source.toList)
          ∧ (∀ span ∈ t.trivia, span.OnBoundaries source)
          ∧ ∀ step ∈ s.run table more, step.1 ≠ .misplaced ∧ step.1.OnBoundaries source)
      ∧ ((∀ call ∈ calls, call.jumps = false) →
        ∀ step ∈ (start source file?).run table calls, step.1 ≠ .misplaced) := by
  intro s
  have htext : s.text = source.toList := (after_source table (start source file?) calls).1
  have hopen : s.size ≤ maxOffset := (after_size table (start source file?) calls).trans_le hsize
  refine ⟨?_, ?_, ?_, ?_, ?_, ?_⟩
  · rw [answer_eq_misplaced_iff table hopen, ← unread?_eq_none_iff htext]
    simp
  · rw [nextByOffsets_eq, answer]
    cases s.nextToken? table with
    | none => rfl
    | some step => rfl
  · intro call hcall
    have hrefused : (s.answer table call).1 = .misplaced ↔ ¬ IsBoundary source s.pos := by
      rw [answer_eq_misplaced_iff table hopen, remainder?_eq_none_iff htext]
      rcases hcall with rfl | rfl
      · simp
      · simp
    rw [hrefused]
    constructor
    · exact Or.inr
    · rintro (hpast | h) hboundary
      · have hle := hboundary.le_width
        omega
      · exact h hboundary
  · intro call h
    exact answer_of_misplaced h
  · intro hpos more hjumps t
    have haligned := aligned_after source file? hsize calls hpos
    have hafter := haligned.after hjumps
    exact ⟨⟨hafter.pos, pos_le_after hopen more, hafter.pos.le_width⟩, hafter.trivia,
      haligned.run hjumps⟩
  · intro hjumps step hstep
    have hstart : IsBoundary source (start source file?).pos :=
      (isBoundary_pos_iff rfl).mpr ⟨source.toList, remainder?_start source file?⟩
    have haligned := aligned_after source file? hsize [] hstart
    exact (haligned.run hjumps step hstep).1

/-- Inside the first character nothing is read and nothing changes. Behind it a comment is kept,
and a mistake is made. -/
theorem fails_only_off_boundaries_accent :
    Text.width "é//a\n&".toList ≤ maxOffset
      ∧ ((start "é//a\n&" none).after table [.recordTrivia, .advance 1]).answer table .nextToken =
        (.misplaced, (start "é//a\n&" none).after table [.recordTrivia, .advance 1])
      ∧ (((start "é//a\n&" none).after table [.advance 9]).answer table .remainder).1 = .misplaced
      ∧ IsBoundary "é//a\n&" ((start "é//a\n&" none).after table [.recordTrivia, .advance 2]).pos
      ∧ (∀ call ∈ [Call.nextToken, .collect], call.jumps = false)
      ∧ (((start "é//a\n&" none).after table [.recordTrivia, .advance 2]).run table
          [.nextToken, .collect]).map (fun step => (step.1, step.2.pos)) =
        [(.error ⟨.invalidCharacter '&', ⟨6, "shell"⟩⟩, 6), (.tokens [], 6)]
      ∧ ∀ step ∈ ((start "é//a\n&" none).after table [.recordTrivia, .advance 2]).run table
          [.nextToken, .collect], step.1.OnBoundaries "é//a\n&" := by
  have hsize : Text.width "é//a\n&".toList ≤ maxOffset := by decide
  have hjumps : ∀ call ∈ [Call.nextToken, .collect], call.jumps = false := by decide
  have hinside : ((start "é//a\n&" none).after table [.recordTrivia, .advance 1]).pos <
        Text.width "é//a\n&".toList
      ∧ ¬ IsBoundary "é//a\n&"
        ((start "é//a\n&" none).after table [.recordTrivia, .advance 1]).pos := by decide +kernel
  have hpast : Text.width "é//a\n&".toList <
      ((start "é//a\n&" none).after table [.advance 9]).pos := by decide +kernel
  have hboundary : IsBoundary "é//a\n&"
      ((start "é//a\n&" none).after table [.recordTrivia, .advance 2]).pos := by decide +kernel
  obtain ⟨hnext, -, -, hsame, -⟩ :=
    fails_only_off_boundaries "é//a\n&" none hsize [.recordTrivia, .advance 1]
  obtain ⟨-, -, hrest, -⟩ := fails_only_off_boundaries "é//a\n&" none hsize [.advance 9]
  obtain ⟨-, -, -, -, hkeeps, -⟩ :=
    fails_only_off_boundaries "é//a\n&" none hsize [.recordTrivia, .advance 2]
  refine ⟨hsize, ?_, (hrest _ (Or.inr rfl)).mpr (Or.inl hpast), hboundary, hjumps,
    by decide +kernel, ?_⟩
  · have hmisplaced := hnext.mpr hinside
    exact Prod.ext hmisplaced (hsame _ hmisplaced)
  · intro step hstep
    exact ((hkeeps hboundary _ hjumps).2.2 step hstep).2

end Session

end ScriptFront
