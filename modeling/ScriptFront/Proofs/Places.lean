import ScriptFront.Proofs.Stream
import ScriptFront.Proofs.Tiling

/-!
# From place to place

A session that stands at a place in its source answers whatever it is asked, and unless it is told
to jump it stands at a place afterwards. What is ahead of it then is an end of what was ahead of it
before. The cursor never goes back, wherever it stands (`pos_le_answer`).

There are few things that a call can do to a session (`answer_cases`): it is moved by a distance,
starts to record, stays what it is, or reads on from the unread text, by one step or to the end. One
step is a scan, and what a scan leaves is an end of its text (`Scan.Reads.left_isSuffix`). Reading
to the end is a series of steps, and a run is a series of calls. So what holds at a place and is kept
by a step is kept by every run without jumps (`Kept.after`).

Where the pieces of the source stand is said by spans. `Span.Marks` is the relation between a span
and its lexeme, together with the text behind it.
-/

namespace ScriptFront

variable {rules : List Rule}

/-! ## Lexemes in a text -/

/-- The span is that of a lexeme in a text, with `rest` behind the lexeme. -/
def Span.Marks (span : Span) (file : String) (text lexeme rest : List Char) : Prop :=
  ∃ front, text = front ++ (lexeme ++ rest)
    ∧ span = ⟨⟨Text.width front, file⟩, ⟨Text.width front + Text.width lexeme, file⟩⟩

/-- The text of such a span is the lexeme. -/
theorem Span.Marks.slice? {span : Span} {file : String} {text lexeme rest : List Char}
    (h : span.Marks file text lexeme rest) : span.slice? text = some lexeme := by
  obtain ⟨front, rfl, rfl⟩ := h
  exact Text.slice?_append front lexeme rest

/-- Where one lexeme ends and another begins, the other stands behind the one. -/
theorem Span.Marks.rest_eq {a b : Span} {file : String} {text lexeme rest other back : List Char}
    (ha : a.Marks file text lexeme rest) (hb : b.Marks file text other back)
    (htouch : a.stop = b.start) : rest = other ++ back := by
  obtain ⟨front, htext, rfl⟩ := ha
  obtain ⟨front', htext', rfl⟩ := hb
  injection htouch with hwidth _
  -- there is one way to cut the text at an offset
  have hcut : Text.splitAtByte? (Text.width front') text = some (front ++ lexeme, rest) :=
    Text.splitAtByte?_eq_some_iff.mpr
      ⟨htext.trans (List.append_assoc _ _ _).symm, (Text.width_append _ _).trans hwidth⟩
  have hcut' := Text.splitAtByte?_eq_some_iff.mpr ⟨htext', rfl⟩
  rw [hcut] at hcut'
  exact (Prod.mk.inj (Option.some.inj hcut')).2

/-- A scan leaves an end of the text. -/
theorem Scan.Reads.left_isSuffix {cs behind : List Char} {scan : Scan}
    (h : Scan.Reads rules cs scan behind) : scan.left behind <:+ cs := by
  have hbehind : behind <:+ cs := ⟨scan.lead, h.append⟩
  unfold Scan.left Scan.rest?
  cases hf : scan.finding with
  | eof => exact hbehind
  | mistake cause => exact hbehind
  | token kind value lexeme rest =>
      have hrest : rest <:+ behind := ⟨lexeme, (h.token_append hf).1.symm⟩
      exact hrest.trans hbehind

namespace Session

variable {s t : Session} {back : List Char}

/-- What begins somewhere ahead of the cursor has the offsets of there. -/
theorem marks_ahead {front lexeme rest : List Char}
    (hplace : s.remainder? = some (front ++ (lexeme ++ rest))) :
    (⟨⟨s.pos + Text.width front, s.file⟩,
      ⟨s.pos + Text.width front + Text.width lexeme, s.file⟩⟩ : Span).Marks
        s.file s.text lexeme rest := by
  obtain ⟨read, htext, hwidth⟩ := remainder?_eq_some_iff.mp hplace
  refine ⟨read ++ front, by rw [htext, List.append_assoc], ?_⟩
  rw [Text.width_append, hwidth]

/-- A span that positions can count is not cut off. -/
theorem span_of_le {start stop : Nat} (h : start ≤ stop) (hmax : stop ≤ maxOffset) :
    s.span start stop = ⟨⟨start, s.file⟩, ⟨stop, s.file⟩⟩ := by
  rw [span, positionAt_of_le (Nat.le_trans h hmax), positionAt_of_le hmax]

/-- Where there is text to read, the cursor is at a place. -/
theorem remainder?_of_unread? {cs : List Char} (h : s.unread? = some cs) (hne : cs ≠ []) :
    s.remainder? = some cs := by
  unfold unread? at h
  split at h
  · exact absurd (Option.some.inj h).symm hne
  · exact h

/-! ## What a call can do -/

/-- **A call moves the cursor, starts to record, changes nothing, or reads on.** What it reads is the
unread text, by one step or to the end. -/
theorem answer_cases (rules : List Rule) (hsize : s.size ≤ maxOffset) (call : Call) :
    (∃ bytes, call = .advance bytes) ∨ call = .recordTrivia
      ∨ (s.answer rules call).2 = s
      ∨ ∃ cs, call.jumps = false ∧ s.unread? = some cs
        ∧ ((s.answer rules call).2 = (s.settle (Scan.of rules cs)).2
          ∨ (s.answer rules call).2 = (s.sweepText rules cs).session) := by
  have hoversize := oversize?_eq_none hsize
  cases call with
  | advance bytes => exact Or.inl ⟨bytes, rfl⟩
  | recordTrivia => exact Or.inr (Or.inl rfl)
  | nextToken =>
      unfold answer nextToken?
      rw [hoversize]
      cases hunread : s.unread? with
      | none => exact Or.inr (Or.inr (Or.inl rfl))
      | some cs => exact Or.inr (Or.inr (Or.inr ⟨cs, rfl, rfl, Or.inl rfl⟩))
  | next =>
      cases hfinished : s.finished with
      | true =>
          unfold answer
          rw [next?_of_finished hfinished]
          exact Or.inr (Or.inr (Or.inl rfl))
      | false =>
          unfold answer next? nextToken?
          rw [hfinished, hoversize]
          cases hunread : s.unread? with
          | none => exact Or.inr (Or.inr (Or.inl rfl))
          | some cs => exact Or.inr (Or.inr (Or.inr ⟨cs, rfl, rfl, Or.inl rfl⟩))
  | collect =>
      cases hfinished : s.finished with
      | true =>
          unfold answer
          rw [collect?_of_finished hfinished]
          exact Or.inr (Or.inr (Or.inl rfl))
      | false =>
          unfold answer collect? sweep?
          rw [hfinished, hoversize]
          cases hunread : s.unread? with
          | none => exact Or.inr (Or.inr (Or.inl rfl))
          | some cs => exact Or.inr (Or.inr (Or.inr ⟨cs, rfl, rfl, Or.inr rfl⟩))
  | char =>
      unfold answer
      cases s.remainder? <;> exact Or.inr (Or.inr (Or.inl rfl))
  | remainder =>
      unfold answer
      cases s.remainder? <;> exact Or.inr (Or.inr (Or.inl rfl))
  | _ => exact Or.inr (Or.inr (Or.inl rfl))

/-! ## There is no way back -/

/-- A step moves the cursor to its finding at least. -/
theorem found_le_settle (s : Session) (scan : Scan) : s.found scan ≤ (s.settle scan).2.pos := by
  cases hf : scan.finding with
  | eof => exact Nat.le_of_eq (congrArg (·.2.pos) (settle_of_eof hf)).symm
  | mistake cause => exact Nat.le_of_eq (congrArg (·.2.pos) (settle_of_mistake hf)).symm
  | token kind value lexeme rest =>
      rw [settle_of_token hf]
      exact Nat.le_add_right _ _

/-- Reading to the end does not go back. -/
theorem pos_le_sweepText (rules : List Rule) (s : Session) (cs : List Char) :
    s.pos ≤ (s.sweepText rules cs).session.pos := by
  induction cs using Scan.token_induction rules generalizing s with
  | last cs hrest =>
      rw [(sweepText_of_rest?_none hrest).2]
      exact Nat.le_trans (Nat.le_add_right _ _) (found_le_settle s _)
  | token cs rest hrest ih =>
      rw [(sweepText_of_rest?_some hrest).2]
      exact Nat.le_trans (Nat.le_trans (Nat.le_add_right _ _) (found_le_settle s _)) (ih _)

/-- No call moves the cursor back. -/
theorem pos_le_answer (hsize : s.size ≤ maxOffset) (call : Call) :
    s.pos ≤ (s.answer rules call).2.pos := by
  rcases answer_cases rules hsize call with
    ⟨bytes, rfl⟩ | rfl | hsame | ⟨cs, -, -, hstep | hsweep⟩
  · exact Nat.le_add_right _ _
  · exact Nat.le_refl _
  · exact Nat.le_of_eq (congrArg (·.pos) hsame).symm
  · rw [hstep]
    exact Nat.le_trans (Nat.le_add_right _ _) (found_le_settle s _)
  · rw [hsweep]
    exact pos_le_sweepText rules s cs

/-! ## Places are kept -/

/-- A property of a session at a place, with the text behind it, that is kept as it reads on. -/
structure Kept (rules : List Rule) (P : Session → List Char → Prop) : Prop where
  /-- It is a property of places. -/
  place : ∀ {s : Session} {back : List Char}, P s back → s.remainder? = some back
  /-- It holds where a step leads. -/
  step : ∀ {s : Session} {back behind : List Char}, P s back →
    Scan.Reads rules back (Scan.of rules back) behind →
      P (s.settle (Scan.of rules back)).2 ((Scan.of rules back).left behind)
  /-- And it does not matter if the session records. -/
  record : ∀ {s : Session} {back : List Char}, P s back → P s.recordTrivia back

namespace Kept

variable {P : Session → List Char → Prop}

/-- It holds where reading to the end leads. -/
theorem sweepText (hkept : Kept rules P) (h : P s back) :
    ∃ rest, P (s.sweepText rules back).session rest := by
  induction back using Scan.token_induction rules generalizing s with
  | last cs hrest =>
      obtain ⟨behind, hreads⟩ := Scan.of_reads rules cs
      rw [(sweepText_of_rest?_none hrest).2]
      exact ⟨_, hkept.step h hreads⟩
  | token cs rest hrest ih =>
      obtain ⟨behind, hreads⟩ := Scan.of_reads rules cs
      have hstep := hkept.step h hreads
      rw [Scan.left, hrest, Option.getD_some] at hstep
      rw [(sweepText_of_rest?_some hrest).2]
      exact ih hstep

/-- It holds where a call leads that does not jump. -/
theorem answer (hkept : Kept rules P) (hsize : s.size ≤ maxOffset) (h : P s back) {call : Call}
    (hjump : call.jumps = false) : ∃ rest, P (s.answer rules call).2 rest := by
  rcases answer_cases rules hsize call with
    ⟨bytes, rfl⟩ | rfl | hsame | ⟨cs, -, hunread, hcall⟩
  · exact absurd hjump (by simp [Call.jumps])
  · exact ⟨back, hkept.record h⟩
  · rw [hsame]
    exact ⟨back, h⟩
  · rw [unread?_eq (hkept.place h)] at hunread
    injection hunread with hunread
    rcases hcall with hstep | hsweep
    · obtain ⟨behind, hreads⟩ := Scan.of_reads rules back
      rw [hstep, ← hunread]
      exact ⟨_, hkept.step h hreads⟩
    · rw [hsweep, ← hunread]
      exact hkept.sweepText h

/-- **It holds where a run without jumps leads.** -/
theorem after (hkept : Kept rules P) {calls : List Call} (hsize : s.size ≤ maxOffset)
    (h : P s back) (hjumps : ∀ call ∈ calls, call.jumps = false) :
    ∃ rest, P (s.after rules calls) rest := by
  induction calls generalizing s back with
  | nil => exact ⟨back, h⟩
  | cons call calls ih =>
      obtain ⟨rest, hcall⟩ := hkept.answer hsize h (hjumps call List.mem_cons_self)
      exact ih (by rw [answer_size]; exact hsize) hcall
        (fun c hc => hjumps c (List.mem_cons_of_mem _ hc))

end Kept

/-- To stand somewhere in what was ahead is kept. -/
theorem kept_place (rules : List Rule) (back : List Char) :
    Kept rules fun s rest => s.remainder? = some rest ∧ rest <:+ back := by
  refine ⟨fun h => h.1, ?_, fun h => h⟩
  intro s rest behind h hreads
  exact ⟨remainder?_settle h.1 hreads, hreads.left_isSuffix.trans h.2⟩

/-- **A call that does not jump leads to a place further on.** -/
theorem place_answer (rules : List Rule) (hsize : s.size ≤ maxOffset)
    (h : s.remainder? = some back) {call : Call} (hjump : call.jumps = false) :
    ∃ rest, (s.answer rules call).2.remainder? = some rest ∧ rest <:+ back :=
  (kept_place rules back).answer hsize ⟨h, List.suffix_refl back⟩ hjump

/-- **A run without jumps goes from place to place.** -/
theorem place_after (rules : List Rule) {calls : List Call} (hsize : s.size ≤ maxOffset)
    (h : s.remainder? = some back) (hjumps : ∀ call ∈ calls, call.jumps = false) :
    ∃ rest, (s.after rules calls).remainder? = some rest ∧ rest <:+ back :=
  (kept_place rules back).after hsize ⟨h, List.suffix_refl back⟩ hjumps

/-- **At a place every call has an answer.** -/
theorem answer_ne_misplaced (hsize : s.size ≤ maxOffset) (h : s.remainder? = some back)
    (call : Call) : (s.answer rules call).1 ≠ .misplaced := by
  unfold answer
  cases call with
  | nextToken =>
      rw [nextToken?_eq hsize h]
      dsimp only
      cases (s.settle (Scan.of rules back)).1 <;> simp [Reply.ofResult]
  | next =>
      cases hfinished : s.finished with
      | true =>
          rw [next?_of_finished hfinished]
          simp
      | false =>
          rw [next?_eq hsize h hfinished]
          dsimp only
          cases (s.settle (Scan.of rules back)).1 <;> simp [Reply.ofResult]
  | collect =>
      cases hfinished : s.finished with
      | true =>
          rw [collect?_of_finished hfinished]
          simp [Reply.ofResults]
      | false =>
          rw [collect?_eq hsize h hfinished]
          dsimp only
          cases (s.sweepText rules back).result <;> simp [Reply.ofResults]
  | char =>
      rw [h]
      simp
  | remainder =>
      rw [h]
      simp
  | _ => simp

end Session

end ScriptFront
