import ScriptFront.Proofs.Blanks
import ScriptFront.Proofs.Skipped

/-!
# What is recorded

A session may keep the spans of what it skips. Two things are to be said of that. It has no
influence: `forget` takes the records away, and calls answer and move the cursor as before
(`answer_congr`, `run_congr`). And it is complete: the records are what has been skipped since
recording began, no more and no less (`recorded?_answer`, `recorded?_after`). What has been skipped
is said without the records, by the pieces of the source (`skippedBy`).

Pieces that are skipped are runs of separators that go on as long as they can, and comments that go
on to the end of their line (`Span.Marks.blank_of_cut`). Where one of a sort ends, none of that sort
begins. That the recorded spans are those of such pieces, that they are in order and that they are
behind the cursor is an invariant of every session (`Recorded`).
-/

namespace ScriptFront

open Rule

variable {rules : List Rule} {file : String} {cs lexeme rest : List Char}

/-! ## Records lose nothing -/

namespace Session

variable {s t : Session} {span : Span}

/-- **A step records what it skips.** -/
theorem recorded?_settle (s : Session) (cs : List Char)
    (hmax : (s.settle (Scan.of rules cs)).2.pos ≤ maxOffset) :
    (s.settle (Scan.of rules cs)).2.recorded? =
      s.recorded?.map
        (· ++ skipsUpTo rules s.file (s.settle (Scan.of rules cs)).2.pos s.pos cs) := by
  rw [settle_recorded?, recordedAfter, skipsUpTo_settle s (Nat.le_refl _) hmax]
  cases (Scan.of rules cs).rest? with
  | none => rw [Option.elim_none, List.append_nil]
  | some rest => rw [Option.elim_some, skipsUpTo_self, List.append_nil]

/-- **Reading to the end records what it skips.** -/
theorem recorded?_sweepText (s : Session) (cs : List Char)
    (hmax : (s.sweepText rules cs).session.pos ≤ maxOffset) :
    (s.sweepText rules cs).session.recorded? =
      s.recorded?.map
        (· ++ skipsUpTo rules s.file (s.sweepText rules cs).session.pos s.pos cs) := by
  induction cs using Scan.token_induction rules generalizing s with
  | last cs hrest =>
      rw [(sweepText_of_rest?_none hrest).2] at hmax ⊢
      exact recorded?_settle s cs hmax
  | token cs rest hrest ih =>
      rw [(sweepText_of_rest?_some hrest).2] at hmax ⊢
      rw [ih _ hmax, skipsUpTo_settle s (pos_le_sweepText rules _ rest) hmax, hrest,
        settle_recorded?, recordedAfter, settle_file, Option.map_map]
      simp only [Function.comp_def, List.append_assoc, Option.elim_some]

/-- **A call records what it skips**, if the session records. -/
theorem recorded?_answer (hsize : s.size ≤ maxOffset) {call : Call} (hcall : call ≠ .recordTrivia) :
    (s.answer rules call).2.recorded? = s.recorded?.map (· ++ s.skippedBy rules call) := by
  have hnothing : s.recorded?.map (· ++ ([] : List Span)) = s.recorded? := by
    simp
  rcases answer_cases rules hsize call with
    ⟨bytes, rfl⟩ | rfl | hsame | ⟨cs, hjump, hunread, hstep⟩
  · exact hnothing.symm
  · exact absurd rfl hcall
  · rw [skippedBy_of_pos_eq (by rw [hsame]), hnothing, hsame]
  · cases hplace : s.remainder? with
    | none =>
        -- there is nothing to read, so the end is found at once
        have hnil : cs = [] := by
          by_contra hne
          rw [remainder?_of_unread? hunread hne] at hplace
          exact absurd hplace (by simp)
        subst hnil
        have hrest : (Scan.of rules []).rest? = none := by rw [Scan.of_nil]; rfl
        rw [(sweepText_of_rest?_none hrest).2, or_self] at hstep
        rw [skippedBy_of_remainder?_none hplace, hnothing, hstep, Scan.of_nil]
        exact hnothing
    | some back =>
        rw [unread?_eq hplace] at hunread
        injection hunread with hunread
        subst hunread
        obtain ⟨rest, hafter, -⟩ := place_answer rules hsize hplace hjump
        have hmax := pos_add_width hafter
        rw [answer_size] at hmax
        rw [skippedBy, hjump, hplace]
        rcases hstep with hstep | hsweep
        · rw [hstep] at hmax ⊢
          exact recorded?_settle s back (by omega)
        · rw [hsweep] at hmax ⊢
          exact recorded?_sweepText s back (by omega)

/-- **A run records what it skips**, as long as recording does not begin anew. -/
theorem recorded?_after (rules : List Rule) (hsize : s.size ≤ maxOffset) {calls : List Call}
    (hcalls : .recordTrivia ∉ calls) :
    (s.after rules calls).recorded? = s.recorded?.map (· ++ s.skippedIn rules calls) := by
  induction calls generalizing s with
  | nil => simp [skippedIn]
  | cons call calls ih =>
      obtain ⟨hcall, hlater⟩ := List.ne_and_not_mem_of_not_mem_cons hcalls
      rw [after_cons, ih (by rw [answer_size]; exact hsize) hlater,
        recorded?_answer hsize (Ne.symm hcall), Option.map_map]
      simp only [Function.comp_def, List.append_assoc, skippedIn]

end Session

/-! ## Records have no influence -/

/-- The reply, without the spans that were recorded. -/
def Reply.withoutSpans : Reply → Reply
  | spans _ => spans []
  | reply => reply

namespace Session

variable {s t : Session} {span : Span}

/-- The session without what it has recorded, and recording no more. -/
def forget (s : Session) : Session := { s with recorded? := none }

theorem settle_forget (s : Session) (scan : Scan) :
    s.forget.settle scan = ((s.settle scan).1, (s.settle scan).2.forget) := by
  unfold settle forget
  cases scan.finding <;> rfl

theorem sweepText_forget (rules : List Rule) (s : Session) (cs : List Char) :
    (s.forget.sweepText rules cs).result = (s.sweepText rules cs).result
      ∧ (s.forget.sweepText rules cs).session = (s.sweepText rules cs).session.forget := by
  constructor
  · rw [Sweep.result_eq, Sweep.result_eq, results_congr (s := s.forget) (t := s) rfl rfl]
  · induction cs using Scan.token_induction rules generalizing s with
    | last cs hrest =>
        rw [(sweepText_of_rest?_none hrest).2, (sweepText_of_rest?_none hrest).2, settle_forget]
    | token cs rest hrest ih =>
        rw [(sweepText_of_rest?_some hrest).2, (sweepText_of_rest?_some hrest).2, settle_forget,
          ih]

theorem nextToken?_forget (rules : List Rule) (s : Session) :
    s.forget.nextToken? rules = (s.nextToken? rules).map (Prod.map id forget) := by
  have hoversize : s.forget.oversize? = s.oversize? := rfl
  have hunread : s.forget.unread? = s.unread? := rfl
  unfold nextToken?
  rw [hoversize, hunread]
  cases s.oversize? with
  | some error => rfl
  | none =>
      cases s.unread? with
      | none => rfl
      | some cs => exact congrArg some (settle_forget s _)

theorem next?_forget (rules : List Rule) (s : Session) :
    s.forget.next? rules = (s.next? rules).map (Prod.map id forget) := by
  have hfinished : s.forget.finished = s.finished := rfl
  unfold next?
  rw [hfinished, nextToken?_forget]
  split
  · rfl
  · cases s.nextToken? rules <;> rfl

theorem collect?_forget (rules : List Rule) (s : Session) :
    s.forget.collect? rules = (s.collect? rules).map (Prod.map id forget) := by
  have hoversize : s.forget.oversize? = s.oversize? := rfl
  have hunread : s.forget.unread? = s.unread? := rfl
  have hfinished : s.forget.finished = s.finished := rfl
  unfold collect? sweep?
  rw [hfinished, hoversize, hunread]
  split
  · rfl
  · cases s.oversize? with
    | some error => rfl
    | none =>
        cases s.unread? with
        | none => rfl
        | some cs =>
            obtain ⟨hresult, hsession⟩ := sweepText_forget rules s cs
            exact congrArg some (Prod.ext hresult hsession)

/-- **What a call answers and where it leads does not depend on records.** -/
theorem answer_forget (rules : List Rule) (s : Session) (call : Call) :
    (s.forget.answer rules call).1.withoutSpans = (s.answer rules call).1.withoutSpans
      ∧ (s.forget.answer rules call).2.forget = (s.answer rules call).2.forget := by
  have hremainder : s.forget.remainder? = s.remainder? := rfl
  unfold answer
  cases call with
  | nextToken =>
      rw [nextToken?_forget]
      cases s.nextToken? rules <;> exact ⟨rfl, rfl⟩
  | next =>
      rw [next?_forget]
      cases s.next? rules with
      | none => exact ⟨rfl, rfl⟩
      | some step =>
          obtain ⟨result?, t⟩ := step
          cases result? <;> exact ⟨rfl, rfl⟩
  | collect =>
      rw [collect?_forget]
      cases s.collect? rules <;> exact ⟨rfl, rfl⟩
  | char =>
      rw [hremainder]
      cases s.remainder? <;> exact ⟨rfl, rfl⟩
  | remainder =>
      rw [hremainder]
      cases s.remainder? <;> exact ⟨rfl, rfl⟩
  | _ => exact ⟨rfl, rfl⟩

/-- So sessions that differ in their records only go on to differ in nothing else. -/
theorem answer_congr (h : s.forget = t.forget) (rules : List Rule) (call : Call) :
    (s.answer rules call).1.withoutSpans = (t.answer rules call).1.withoutSpans
      ∧ (s.answer rules call).2.forget = (t.answer rules call).2.forget := by
  obtain ⟨hreply, hsession⟩ := answer_forget rules s call
  obtain ⟨hreply', hsession'⟩ := answer_forget rules t call
  rw [h] at hreply hsession
  exact ⟨hreply.symm.trans hreply', hsession.symm.trans hsession'⟩

/-- **Over a whole run they answer alike**, are at the same places, and are done with at the same
time. -/
theorem run_congr (h : s.forget = t.forget) (rules : List Rule) (calls : List Call) :
    ((s.run rules calls).map fun step => (step.1.withoutSpans, step.2.forget)) =
      (t.run rules calls).map fun step => (step.1.withoutSpans, step.2.forget) := by
  induction calls generalizing s t with
  | nil => rfl
  | cons call calls ih =>
      obtain ⟨hreply, hsession⟩ := answer_congr h rules call
      rw [run_cons, run_cons, List.map_cons, List.map_cons, hreply, hsession, ih hsession]

/-- And they skip the same. -/
theorem skippedBy_congr (h : s.forget = t.forget) (rules : List Rule) (call : Call) :
    s.skippedBy rules call = t.skippedBy rules call := by
  have hpos : s.pos = t.pos := congrArg (·.pos) h
  have hfile : s.file = t.file := congrArg (·.file) h
  have hplace : s.forget.remainder? = t.forget.remainder? := congrArg remainder? h
  have hremainder : s.remainder? = t.remainder? := hplace
  have hafter : (s.answer rules call).2.pos = (t.answer rules call).2.pos :=
    congrArg (·.pos) (answer_congr h rules call).2
  rw [skippedBy, skippedBy, hpos, hfile, hremainder, hafter]

theorem skippedIn_congr (h : s.forget = t.forget) (rules : List Rule) (calls : List Call) :
    s.skippedIn rules calls = t.skippedIn rules calls := by
  induction calls generalizing s t with
  | nil => rfl
  | cons call calls ih =>
      rw [skippedIn, skippedIn, skippedBy_congr h, ih (answer_congr h rules call).2]

/-! ## Where recorded spans stand -/

/-- What is true of the spans that a session has recorded. -/
structure Recorded (rules : List Rule) (s : Session) : Prop where
  /-- Each of them is that of a piece that is skipped. -/
  marks : ∀ span ∈ s.trivia, ∃ lexeme rest, span.Marks s.file s.text lexeme rest
    ∧ Piece.cut rules (lexeme ++ rest) = .skip lexeme rest
  /-- They stand in order and have no part in common. -/
  ordered : s.trivia.Pairwise fun a b => a.stop.offset ≤ b.start.offset
  /-- None of them goes past the cursor. -/
  read : ∀ span ∈ s.trivia, span.stop.offset ≤ s.pos

/-- So it is when there are none. -/
theorem recorded_of_trivia_eq_nil (h : s.trivia = []) : Recorded rules s := by
  constructor <;> rw [h]
  · exact fun span hspan => absurd hspan List.not_mem_nil
  · exact .nil
  · exact fun span hspan => absurd hspan List.not_mem_nil

/-- To what has been recorded a call adds what it skips, or there is nothing recorded after it. -/
theorem trivia_answer (hsize : s.size ≤ maxOffset) (call : Call) :
    (s.answer rules call).2.trivia = []
      ∨ (s.answer rules call).2.trivia = s.trivia ++ s.skippedBy rules call := by
  by_cases hcall : call = .recordTrivia
  · subst hcall
    exact Or.inl rfl
  · unfold trivia
    rw [recorded?_answer hsize hcall]
    cases s.recorded? with
    | none => exact Or.inl rfl
    | some spans => exact Or.inr rfl

/-- **A call keeps it true.** -/
theorem Recorded.answer (h : Recorded rules s) (hsize : s.size ≤ maxOffset) (call : Call) :
    Recorded rules (s.answer rules call).2 := by
  rcases @trivia_answer rules s hsize call with hnil | htrivia
  · exact recorded_of_trivia_eq_nil hnil
  · obtain ⟨htext, hfile⟩ := answer_source rules s call
    constructor <;> rw [htrivia]
    · intro span hspan
      rw [htext, hfile]
      rcases List.mem_append.mp hspan with hspan | hspan
      · exact h.marks span hspan
      · exact (marks_of_mem_skippedBy hspan).1
    · refine List.pairwise_append.mpr ⟨h.ordered, pairwise_skippedBy rules s call, ?_⟩
      intro a ha b hb
      exact Nat.le_trans (h.read a ha) (marks_of_mem_skippedBy hb).2.1
    · intro span hspan
      rcases List.mem_append.mp hspan with hspan | hspan
      · exact Nat.le_trans (h.read span hspan) (pos_le_answer hsize call)
      · exact (marks_of_mem_skippedBy hspan).2.2

/-- **So it is true after every run.** -/
theorem recorded_after (source : String) (file? : Option String)
    (hsize : Text.width source.toList ≤ maxOffset) (calls : List Call) :
    Recorded rules ((start source file?).after rules calls) := by
  have hopen : (start source file?).size ≤ maxOffset := hsize
  have hkept : ((start source file?).after rules calls).size ≤ maxOffset
      ∧ Recorded rules ((start source file?).after rules calls) := by
    refine after_induction (P := fun t => t.size ≤ maxOffset ∧ Recorded rules t) ?_ ?_
    · exact ⟨hopen, recorded_of_trivia_eq_nil rfl⟩
    · intro t call _ ht
      exact ⟨by rw [answer_size]; exact ht.1, ht.2.answer ht.1 call⟩
  exact hkept.2

end Session

/-! ## Runs of separators and comments -/

/-- What is left when a run has been dropped begins with something else. -/
theorem of_mem_head?_dropWhile {p : Char → Bool} {c : Char}
    (h : c ∈ (cs.dropWhile p).head?) : p c = false := by
  have hhead := List.head?_dropWhile_not p cs
  rw [h] at hhead
  exact hhead

namespace Span

/-- The span is that of separators that go on as long as they can. -/
def IsSeparatorRun (span : Span) (file : String) (text : List Char) : Prop :=
  ∃ lexeme rest, span.Marks file text lexeme rest
    ∧ lexeme ≠ [] ∧ (∀ c ∈ lexeme, isSeparator c = true) ∧ ∀ c ∈ rest.head?, isSeparator c = false

/-- The span is that of two slashes and all that follows them on their line. -/
def IsComment (span : Span) (file : String) (text : List Char) : Prop :=
  ∃ body rest, span.Marks file text ('/' :: '/' :: body) rest
    ∧ '\n' ∉ body ∧ ∀ c ∈ rest.head?, c = '\n'

variable {a b : Span} {text : List Char}

/-- **What is skipped is a run of separators or a comment.** -/
theorem Marks.blank_of_cut {span : Span} (hmarks : span.Marks file text lexeme rest)
    (hcut : Piece.cut table (lexeme ++ rest) = .skip lexeme rest) :
    span.IsSeparatorRun file text ∨ span.IsComment file text := by
  obtain ⟨-, hne⟩ := Piece.append_of_cut_skip hcut
  obtain ⟨c, cs, hcs⟩ := List.exists_cons_of_ne_nil (List.append_ne_nil_of_left_ne_nil hne rest)
  rw [hcs] at hcut
  by_cases hsep : isSeparator c = true
  · rw [Piece.cut_separators hsep] at hcut
    injection hcut with hlexeme hrest
    refine Or.inl ⟨lexeme, rest, hmarks, hne, ?_, ?_⟩
    · rw [← hlexeme]
      exact List.forall_mem_cons.mpr ⟨hsep, fun d hd => List.mem_takeWhile_imp hd⟩
    · rw [← hrest]
      exact fun d hd => of_mem_head?_dropWhile hd
  · by_cases hcomment : ['/', '/'] <+: c :: cs
    · obtain ⟨more, hmore⟩ := hcomment
      have hskip : Piece.cut table ('/' :: '/' :: more) = .skip lexeme rest := by
        rw [← hcut, ← hmore]
        rfl
      rw [Piece.cut_comment] at hskip
      injection hskip with hlexeme hrest
      subst hlexeme hrest
      refine Or.inr ⟨_, _, hmarks, fun hmem => ?_, fun d hd => ?_⟩
      · exact absurd (List.mem_takeWhile_imp hmem) (by decide)
      · simpa using of_mem_head?_dropWhile hd
    · obtain ⟨finding, hfound⟩ := Scan.exists_cut_eq_found (eq_false_of_ne_true hsep) hcomment
      rw [hfound] at hcut
      exact absurd hcut (by simp)

/-- Where separators have gone on as long as they can, none follows. -/
theorem IsSeparatorRun.not_next (ha : a.IsSeparatorRun file text) (htouch : a.stop = b.start) :
    ¬ b.IsSeparatorRun file text := by
  rintro ⟨next, back, hmarks', hne, hsep, -⟩
  obtain ⟨lexeme, rest, hmarks, -, -, hend⟩ := ha
  obtain ⟨c, cs, rfl⟩ := List.exists_cons_of_ne_nil hne
  rw [hmarks.rest_eq hmarks' htouch] at hend
  exact absurd ((hend c rfl).symm.trans (hsep c List.mem_cons_self)) (by simp)

/-- Nor does a comment follow a comment, since a newline does. -/
theorem IsComment.not_next (ha : a.IsComment file text) (htouch : a.stop = b.start) :
    ¬ b.IsComment file text := by
  rintro ⟨next, back, hmarks', -⟩
  obtain ⟨body, rest, hmarks, -, hend⟩ := ha
  rw [hmarks.rest_eq hmarks' htouch] at hend
  exact absurd (hend '/' rfl) (by decide)

end Span

namespace Session

/-- **Recording has no influence and loses nothing.** Let recording begin at any time, before the
first call of a run, between two calls or after the last, and whatever calls come before and after,
jumps among them. Then what comes after is the same as if it had not begun: the replies, except for
the recorded spans themselves, the cursor, and whether the session is done with. Before it has
begun nothing is recorded. When it has begun for the last time, the recorded spans are those of what
is skipped from then on. They are in order. Each is that of separators that go on as long as they
can, or of a comment that goes on to the end of its line; and if one ends where another begins, they
are not both of separators, nor both of comments. -/
theorem recording_transparent (source : String) (file? : Option String)
    (hsize : Text.width source.toList ≤ maxOffset) (before later : List Call) :
    let s := (start source file?).after table before
    let t := s.recordTrivia.after table later
    ((s.recordTrivia.run table later).map fun step =>
          (step.1.withoutSpans, step.2.pos, step.2.finished)) =
        ((s.run table later).map fun step =>
          (step.1.withoutSpans, step.2.pos, step.2.finished))
      ∧ (.recordTrivia ∉ before → s.trivia = [])
      ∧ (.recordTrivia ∉ later → t.trivia = s.skippedIn table later)
      ∧ (t.trivia.Pairwise fun a b => a.stop.offset ≤ b.start.offset)
      ∧ (∀ span ∈ t.trivia, span.IsSeparatorRun (file?.getD unnamed) source.toList
          ∨ span.IsComment (file?.getD unnamed) source.toList)
      ∧ ∀ a ∈ t.trivia, ∀ b ∈ t.trivia, a.stop = b.start →
          ¬ (a.IsSeparatorRun (file?.getD unnamed) source.toList
              ∧ b.IsSeparatorRun (file?.getD unnamed) source.toList)
            ∧ ¬ (a.IsComment (file?.getD unnamed) source.toList
              ∧ b.IsComment (file?.getD unnamed) source.toList) := by
  intro s t
  have hopen : (start source file?).size ≤ maxOffset := hsize
  have hcalls : (start source file?).after table (before ++ .recordTrivia :: later) = t :=
    after_append table _ before _
  have hrecords : Recorded table t := by
    rw [← hcalls]
    exact recorded_after source file? hsize _
  have hsource : t.text = source.toList ∧ t.file = file?.getD unnamed := by
    rw [← hcalls]
    exact after_source table _ _
  refine ⟨?_, fun hbefore => ?_, fun hlater => ?_, hrecords.ordered, fun span hspan => ?_,
    fun a _ b _ htouch => ⟨fun h => h.1.not_next htouch h.2, fun h => h.1.not_next htouch h.2⟩⟩
  · have hrun := congrArg (List.map fun step => (step.1, step.2.pos, step.2.finished))
      (run_congr (s := s.recordTrivia) (t := s) rfl table later)
    rw [List.map_map, List.map_map] at hrun
    exact hrun
  · have hrecorded : s.recorded? = none := recorded?_after table hopen hbefore
    rw [trivia, hrecorded]
    rfl
  · have hkept : s.recordTrivia.size ≤ maxOffset := by
      rw [← after_size table (start source file?) before] at hopen
      exact hopen
    have hrecorded := recorded?_after table hkept hlater
    rw [trivia, hrecorded, skippedIn_congr (s := s.recordTrivia) (t := s) rfl]
    rfl
  · obtain ⟨lexeme, rest, hmarks, hcut⟩ := hrecords.marks span hspan
    rw [hsource.1, hsource.2] at hmarks
    exact hmarks.blank_of_cut hcut

/-- A comment and a run of separators, recorded from the middle of a source on, up to a mistake
that is made twice. -/
theorem recording_transparent_comment :
    Text.width "a //b\n &".toList ≤ maxOffset
      ∧ ((start "a //b\n &" none).after table
          [.nextToken, .recordTrivia, .nextToken, .nextToken]).trivia =
        [⟨⟨1, "shell"⟩, ⟨2, "shell"⟩⟩, ⟨⟨2, "shell"⟩, ⟨5, "shell"⟩⟩,
          ⟨⟨5, "shell"⟩, ⟨7, "shell"⟩⟩]
      ∧ (((start "a //b\n &" none).after table [.nextToken]).recordTrivia.run table
            [.nextToken, .nextToken]).map
          (fun step => (step.1.withoutSpans, step.2.pos, step.2.finished)) =
        [(.error ⟨.invalidCharacter '&', ⟨7, "shell"⟩⟩, 7, true),
          (.error ⟨.invalidCharacter '&', ⟨7, "shell"⟩⟩, 7, true)] := by
  have hsize : Text.width "a //b\n &".toList ≤ maxOffset := by decide
  obtain ⟨hrun, -, hskipped, -⟩ := recording_transparent "a //b\n &" none hsize [.nextToken]
    [.nextToken, .nextToken]
  refine ⟨hsize, ?_, ?_⟩
  · exact (hskipped (by decide)).trans (by decide +kernel)
  · rw [hrun]
    decide +kernel

end Session

end ScriptFront
