import ScriptFront.Proofs.Places

/-!
# What is skipped

Some pieces of a source are passed over without a word, and no reply says so. To speak of them,
`skipsUpTo` cuts a text into its pieces up to some offset and takes the spans of those to be skipped.
The pieces that a call has gone through are those between the cursor before it and the cursor after
it (`skippedBy`), whatever it was asked for and however it ended. So when a mistake is made behind a
comment, the comment has been skipped; when the mistake is made again, nothing has.

Each of the spans is that of a piece that was cut off the source there
(`marks_of_mem_skippedBy`), and they are in order. How they come about step by step is said by
`skipsUpTo_settle`: first comes what the scan skips, and then what is skipped behind its token.
-/

namespace ScriptFront

variable {rules : List Rule} {file : String} {offset stop : Nat} {cs lexeme rest : List Char}

/-! ## Pieces up to an offset -/

/-- The spans of what is to be skipped in a text that begins at an offset, as far as it ends at
`stop` or before. -/
def skipsUpTo (rules : List Rule) (file : String) (stop offset : Nat) (cs : List Char) :
    List Span :=
  match _hcut : Piece.cut rules cs with
  | .skip lexeme rest =>
      if offset + Text.width lexeme ≤ stop then
        ⟨⟨offset, file⟩, ⟨offset + Text.width lexeme, file⟩⟩ ::
          skipsUpTo rules file stop (offset + Text.width lexeme) rest
      else []
  | .found (.token _ _ lexeme rest) =>
      if offset + Text.width lexeme ≤ stop then
        skipsUpTo rules file stop (offset + Text.width lexeme) rest
      else []
  | .found .eof => []
  | .found (.mistake _) => []
termination_by cs.length
decreasing_by
  all_goals
    have hparts : (Piece.cut rules cs).parts? = some (lexeme, rest) := by rw [_hcut]; rfl
    exact Piece.rest_length_lt hparts

theorem skipsUpTo_of_skip (h : Piece.cut rules cs = .skip lexeme rest)
    (hstop : offset + Text.width lexeme ≤ stop) :
    skipsUpTo rules file stop offset cs =
      ⟨⟨offset, file⟩, ⟨offset + Text.width lexeme, file⟩⟩ ::
        skipsUpTo rules file stop (offset + Text.width lexeme) rest := by
  rw [skipsUpTo]
  split <;> rename_i hcut <;> rw [h] at hcut
  · injection hcut with hlexeme hrest
    subst hlexeme hrest
    rw [if_pos hstop]
  all_goals exact absurd hcut (by simp)

theorem skipsUpTo_of_token {kind : Kind} {value : String}
    (h : Piece.cut rules cs = .found (.token kind value lexeme rest))
    (hstop : offset + Text.width lexeme ≤ stop) :
    skipsUpTo rules file stop offset cs =
      skipsUpTo rules file stop (offset + Text.width lexeme) rest := by
  rw [skipsUpTo]
  split <;> rename_i hcut <;> rw [h] at hcut
  · exact absurd hcut (by simp)
  · injection hcut with hcut
    injection hcut with _ _ hlexeme hrest
    subst hlexeme hrest
    rw [if_pos hstop]
  all_goals exact absurd hcut (by simp)

/-- The end, or a mistake, is where it stops. -/
theorem skipsUpTo_of_parts?_none (h : (Piece.cut rules cs).parts? = none) :
    skipsUpTo rules file stop offset cs = [] := by
  rw [skipsUpTo]
  split <;> rename_i hcut <;> rw [hcut] at h
  · exact absurd h (by simp [Piece.parts?])
  · exact absurd h (by simp [Piece.parts?])

/-- Nothing is skipped up to where one is. -/
theorem skipsUpTo_self (rules : List Rule) (file : String) (offset : Nat) (cs : List Char) :
    skipsUpTo rules file offset offset cs = [] := by
  have hpos : ∀ lexeme rest, (Piece.cut rules cs).parts? = some (lexeme, rest) →
      ¬ offset + Text.width lexeme ≤ offset := by
    intro lexeme rest hparts hle
    exact (Piece.append_of_parts?_cut hparts).2 (Text.width_eq_zero_iff.mp (by omega))
  rw [skipsUpTo]
  split <;> rename_i hcut <;> rw [hcut] at hpos
  · exact if_neg (hpos _ _ rfl)
  · exact if_neg (hpos _ _ rfl)

/-- **What is skipped is cut off the text where its span is**, and ends in time. -/
theorem exists_of_mem_skipsUpTo {span : Span} (h : span ∈ skipsUpTo rules file stop offset cs) :
    ∃ front lexeme rest, cs = front ++ (lexeme ++ rest)
      ∧ Piece.cut rules (lexeme ++ rest) = .skip lexeme rest
      ∧ span = ⟨⟨offset + Text.width front, file⟩,
          ⟨offset + Text.width front + Text.width lexeme, file⟩⟩
      ∧ offset + Text.width front + Text.width lexeme ≤ stop := by
  fun_induction skipsUpTo rules file stop offset cs with
  | case1 offset cs lexeme rest hcut hle ih =>
      obtain ⟨rfl, -⟩ := Piece.append_of_cut_skip hcut
      rcases List.mem_cons.mp h with rfl | h
      · exact ⟨[], lexeme, rest, rfl, hcut, rfl, hle⟩
      · obtain ⟨front, first, back, rfl, hskip, rfl, hend⟩ := ih h
        refine ⟨lexeme ++ front, first, back, by rw [List.append_assoc], hskip, ?_, ?_⟩
        · simp only [Text.width_append, Nat.add_assoc]
        · simp only [Text.width_append]
          omega
  | case3 offset cs kind value lexeme rest hcut hle ih =>
      obtain ⟨rfl, -⟩ := Piece.append_of_cut_token hcut
      obtain ⟨front, first, back, rfl, hskip, rfl, hend⟩ := ih h
      refine ⟨lexeme ++ front, first, back, by rw [List.append_assoc], hskip, ?_, ?_⟩
      · simp only [Text.width_append, Nat.add_assoc]
      · simp only [Text.width_append]
        omega
  | case2 => exact absurd h List.not_mem_nil
  | case4 => exact absurd h List.not_mem_nil
  | case5 => exact absurd h List.not_mem_nil
  | case6 => exact absurd h List.not_mem_nil

/-- **It is in order.** -/
theorem pairwise_skipsUpTo (rules : List Rule) (file : String) (stop offset : Nat)
    (cs : List Char) :
    (skipsUpTo rules file stop offset cs).Pairwise
      fun a b => a.stop.offset ≤ b.start.offset := by
  fun_induction skipsUpTo rules file stop offset cs with
  | case1 offset cs lexeme rest hcut hle ih =>
      refine List.pairwise_cons.mpr ⟨fun b hb => ?_, ih⟩
      obtain ⟨front, first, back, -, -, rfl, -⟩ := exists_of_mem_skipsUpTo hb
      exact Nat.le_add_right _ _
  | case3 offset cs kind value lexeme rest hcut hle ih => exact ih
  | case2 => exact .nil
  | case4 => exact .nil
  | case5 => exact .nil
  | case6 => exact .nil

/-! ## Steps -/

namespace Scan

variable {scan : Scan} {behind : List Char}

/-- What is read behind the first lexeme that is skipped. -/
theorem Reads.of_after (hcut : Piece.cut rules cs = .skip lexeme rest)
    (h : Reads rules cs (scan.after lexeme) behind) : Reads rules rest scan behind := by
  have happend := h.append
  rw [lead_after, List.append_assoc, ← (Piece.append_of_cut_skip hcut).1] at happend
  exact ⟨List.append_cancel_left happend, h.cut,
    fun l hl => h.nonempty l (List.mem_cons_of_mem _ hl)⟩

end Scan

namespace Session

variable {s : Session} {behind : List Char} {span : Span}

/-- **What a scan skips comes first, and then what is skipped behind it.** -/
theorem skipsUpTo_of_reads (s : Session)
    (hreads : Scan.Reads rules cs (Scan.of rules cs) behind)
    (hstop : offset + Text.width (Scan.of rules cs).lead ≤ stop) (hmax : stop ≤ maxOffset) :
    skipsUpTo rules s.file stop offset cs =
      s.spansFrom offset (Scan.of rules cs).skipped ++
        skipsUpTo rules s.file stop (offset + Text.width (Scan.of rules cs).lead) behind := by
  fun_induction Scan.of rules cs generalizing offset with
  | case1 cs lexeme rest hcut ih =>
      rw [Scan.lead_after, Text.width_append] at hstop
      rw [skipsUpTo_of_skip hcut (by omega), ih (hreads.of_after hcut) (by omega), Scan.lead_after,
        Text.width_append, Nat.add_assoc]
      simp only [Scan.after, spansFrom, List.cons_append]
      rw [span_of_le (Nat.le_add_right _ _) (by omega)]
  | case2 cs finding hcut =>
      have hbehind : behind = cs := hreads.append
      rw [hbehind]
      rfl

/-- **What is skipped by a step and behind it.** -/
theorem skipsUpTo_settle (s : Session) (hstop : (s.settle (Scan.of rules cs)).2.pos ≤ stop)
    (hmax : stop ≤ maxOffset) :
    skipsUpTo rules s.file stop s.pos cs =
      s.spansFrom s.pos (Scan.of rules cs).skipped ++
        (Scan.of rules cs).rest?.elim []
          (skipsUpTo rules s.file stop (s.settle (Scan.of rules cs)).2.pos) := by
  obtain ⟨behind, hreads⟩ := Scan.of_reads rules cs
  have hcut := hreads.cut
  rw [skipsUpTo_of_reads s hreads (Nat.le_trans (found_le_settle s _) hstop) hmax]
  refine congrArg _ ?_
  unfold Scan.rest?
  cases hf : (Scan.of rules cs).finding with
  | eof =>
      rw [hf] at hcut
      exact skipsUpTo_of_parts?_none (by rw [hcut]; rfl)
  | mistake cause =>
      rw [hf] at hcut
      exact skipsUpTo_of_parts?_none (by rw [hcut]; rfl)
  | token kind value lexeme rest =>
      rw [hf] at hcut
      rw [settle_of_token hf] at hstop ⊢
      exact skipsUpTo_of_token hcut hstop

/-! ## Calls and runs -/

/-- The spans of what a call skips: of the pieces between the cursor before and after it, unless it
moves the cursor without reading. -/
def skippedBy (rules : List Rule) (s : Session) (call : Call) : List Span :=
  if call.jumps then []
  else s.remainder?.elim [] (skipsUpTo rules s.file (s.answer rules call).2.pos s.pos)

/-- A call that leaves the cursor where it is skips nothing. -/
theorem skippedBy_of_pos_eq {call : Call} (h : (s.answer rules call).2.pos = s.pos) :
    s.skippedBy rules call = [] := by
  unfold skippedBy
  rw [h]
  split
  · rfl
  · cases s.remainder? with
    | none => rfl
    | some back => exact skipsUpTo_self rules s.file s.pos back

/-- Past the end, or inside a character, nothing is skipped by any call. -/
theorem skippedBy_of_remainder?_none (h : s.remainder? = none) (call : Call) :
    s.skippedBy rules call = [] := by
  unfold skippedBy
  rw [h, Option.elim_none, ite_self]

/-- **What a call skips is cut off the source where its span is**, between the cursor before and
after the call. -/
theorem marks_of_mem_skippedBy {call : Call} (h : span ∈ s.skippedBy rules call) :
    (∃ lexeme rest, span.Marks s.file s.text lexeme rest
        ∧ Piece.cut rules (lexeme ++ rest) = .skip lexeme rest)
      ∧ s.pos ≤ span.start.offset ∧ span.stop.offset ≤ (s.answer rules call).2.pos := by
  unfold skippedBy at h
  split at h
  · exact absurd h List.not_mem_nil
  · cases hplace : s.remainder? with
    | none =>
        rw [hplace] at h
        exact absurd h List.not_mem_nil
    | some back =>
        rw [hplace] at h
        obtain ⟨front, lexeme, rest, rfl, hcut, rfl, hstop⟩ := exists_of_mem_skipsUpTo h
        exact ⟨⟨lexeme, rest, marks_ahead hplace, hcut⟩, Nat.le_add_right _ _, hstop⟩

/-- It is in order. -/
theorem pairwise_skippedBy (rules : List Rule) (s : Session) (call : Call) :
    (s.skippedBy rules call).Pairwise fun a b => a.stop.offset ≤ b.start.offset := by
  unfold skippedBy
  split
  · exact .nil
  · cases s.remainder? with
    | none => exact .nil
    | some back => exact pairwise_skipsUpTo rules s.file _ s.pos back

/-- The spans of what is skipped in a run, call by call. -/
def skippedIn (rules : List Rule) (s : Session) : List Call → List Span
  | [] => []
  | call :: calls => s.skippedBy rules call ++ skippedIn rules (s.answer rules call).2 calls

/-- What is skipped in a run is skipped by one of its calls. -/
theorem exists_of_mem_skippedIn {calls : List Call} (h : span ∈ s.skippedIn rules calls) :
    ∃ before call later, calls = before ++ call :: later
      ∧ span ∈ (s.after rules before).skippedBy rules call := by
  induction calls generalizing s with
  | nil => exact absurd h List.not_mem_nil
  | cons first calls ih =>
      rcases List.mem_append.mp h with h | h
      · exact ⟨[], first, calls, rfl, h⟩
      · obtain ⟨before, call, later, rfl, hmem⟩ := ih h
        exact ⟨first :: before, call, later, rfl, hmem⟩

/-- **So it was cut off the source where its span is.** -/
theorem marks_of_mem_skippedIn {calls : List Call} (h : span ∈ s.skippedIn rules calls) :
    ∃ lexeme rest, span.Marks s.file s.text lexeme rest
      ∧ Piece.cut rules (lexeme ++ rest) = .skip lexeme rest := by
  obtain ⟨before, call, later, rfl, hskipped⟩ := exists_of_mem_skippedIn h
  obtain ⟨htext, hfile⟩ := after_source rules s before
  have hmarks := (marks_of_mem_skippedBy hskipped).1
  rwa [htext, hfile] at hmarks

end Session

end ScriptFront
