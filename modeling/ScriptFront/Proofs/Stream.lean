import ScriptFront.Proofs.Runs

/-!
# One stream, however it is read

A source has one stream of results: its tokens, and then the result that ends it, which is the
token for its end or the first mistake. `Sweep.results` is that stream, and this file shows that
the three ways to read only differ in how much of it they take at a time.

The argument is an invariant. At any time in a run without jumps, a session is `Reading` a list of
results that are still to come. As long as there are any, it stands where reading to the end gives
just these. When there are none it is done with, and stands where a scan skips nothing and comes
to the last result once more. Each call takes its part of the list and keeps the invariant
(`Reading.answer`); what it replies is the part it takes.

That the invariant can be kept at all rests on one fact: what is read from a place depends on
the text behind it and on its offset, not on what a session has recorded or been asked before
(`results_congr`).
-/

namespace ScriptFront

variable {rules : List Rule}

namespace Session

variable {s t : Session} {back : List Char} {last : Except Error Token}
  {pending : List (Except Error Token)}

/-! ## The results of a sweep -/

/-- What a sweep comes to, result by result. -/
def Sweep.results (sweep : Sweep) : List (Except Error Token) :=
  sweep.tokens.map .ok ++ sweep.error?.toList.map .error

/-- A sweep returns its tokens if there is no mistake among its results, and else the first. -/
theorem Sweep.result_eq (sweep : Sweep) : sweep.result = sweep.results.mapM id := by
  obtain ⟨tokens, error?, session⟩ := sweep
  unfold result results
  induction tokens with
  | nil => cases error? <;> rfl
  | cons token tokens ih =>
      simp only [List.map_cons, List.cons_append, List.mapM_cons, id, ← ih]
      cases error? <;> rfl

/-- All of a stream, as one answer: its tokens with the one for the end, or the mistake. -/
theorem mapM_id_stream (tokens : List Token) (last : Except Error Token) :
    (tokens.map Except.ok ++ [last]).mapM id =
      match last with
      | .ok eof => .ok (tokens ++ [eof])
      | .error error => .error error := by
  induction tokens with
  | nil => cases last <;> rfl
  | cons token tokens ih =>
      simp only [List.map_cons, List.cons_append, List.mapM_cons, id, ih]
      cases last <;> rfl

/-- A stream without a mistake is returned whole. -/
theorem mapM_id_ok (tokens : List Token) :
    (tokens.map (Except.ok (ε := Error))).mapM id = .ok tokens := by
  induction tokens with
  | nil => rfl
  | cons token tokens ih =>
      simp only [List.map_cons, List.mapM_cons, id, ih]
      rfl

/-- To read a whole source is to sweep it once. -/
theorem tokenize_eq {source : String} (file? : Option String)
    (hsize : Text.width source.toList ≤ maxOffset) :
    tokenize source file? =
      ((start source file?).sweepText Rule.table source.toList).results.mapM id := by
  have hopen : (start source file?).size ≤ maxOffset := hsize
  unfold tokenize tokenizeWith
  dsimp only
  rw [oversize?_eq_none hopen, ← Sweep.result_eq]
  rfl

/-- A source that is too long is not read at all. -/
theorem tokenize_of_oversize {source : String} (file? : Option String)
    (hsize : maxOffset < Text.width source.toList) :
    tokenize source file? =
      .error ⟨.sourceTooLarge (Text.width source.toList), ⟨0, file?.getD unnamed⟩⟩ := by
  have hover : (start source file?).oversize? = some _ := if_pos hsize
  unfold tokenize tokenizeWith
  dsimp only
  rw [hover, positionAt_of_le (Nat.zero_le _)]
  rfl

/-- A step that finds no token ends a sweep. -/
theorem sweepText_of_rest?_none (h : (Scan.of rules back).rest? = none) :
    (s.sweepText rules back).results = [(s.settle (Scan.of rules back)).1]
      ∧ (s.sweepText rules back).session = (s.settle (Scan.of rules back)).2 := by
  rw [sweepText]
  split
  · rename_i error herror
    rw [herror]
    exact ⟨rfl, rfl⟩
  · rename_i token htoken
    rw [htoken]
    split
    · exact ⟨rfl, rfl⟩
    · rename_i rest hrest
      rw [h] at hrest
      exact absurd hrest (by simp)

/-- A step that finds a token is the first of a sweep that goes on behind it. -/
theorem sweepText_of_rest?_some {rest : List Char} (h : (Scan.of rules back).rest? = some rest) :
    (s.sweepText rules back).results =
        (s.settle (Scan.of rules back)).1 ::
          ((s.settle (Scan.of rules back)).2.sweepText rules rest).results
      ∧ (s.sweepText rules back).session =
        ((s.settle (Scan.of rules back)).2.sweepText rules rest).session := by
  rw [sweepText]
  split
  · rename_i error herror
    obtain ⟨kind, value, lexeme, hf⟩ := Scan.rest?_eq_some_iff.mp h
    rw [settle_of_token hf] at herror
    exact absurd herror (by simp)
  · rename_i token htoken
    rw [htoken]
    split
    · rename_i hrest
      rw [h] at hrest
      exact absurd hrest (by simp)
    · rename_i rest' hrest
      rw [h] at hrest
      injection hrest with hrest
      rw [← hrest]
      exact ⟨rfl, rfl⟩

/-- **What is read from a place depends on nothing but the place.** -/
theorem results_congr (hpos : s.pos = t.pos) (hfile : s.file = t.file) (back : List Char) :
    (s.sweepText rules back).results = (t.sweepText rules back).results := by
  induction back using Scan.token_induction rules generalizing s t with
  | last cs hrest =>
      rw [(sweepText_of_rest?_none hrest).1, (sweepText_of_rest?_none hrest).1,
        (settle_result_congr hpos hfile _).1]
  | token cs rest hrest ih =>
      obtain ⟨hresult, hpos'⟩ := settle_result_congr hpos hfile (Scan.of rules cs)
      rw [(sweepText_of_rest?_some hrest).1, (sweepText_of_rest?_some hrest).1, hresult,
        ih hpos' (by rw [settle_file, settle_file, hfile])]

/-- Whether a result ends a source: the token for its end, or a mistake. -/
def endsSource : Except Error Token → Bool
  | .ok token => token.kind = .eof
  | .error _ => true

/-- A step ends the source just if it finds no token. -/
theorem endsSource_settle {behind : List Char} (scan : Scan)
    (hreads : Scan.Reads rules back scan behind) :
    endsSource (s.settle scan).1 = scan.rest?.isNone := by
  unfold Scan.rest?
  cases hf : scan.finding with
  | eof => rw [settle_of_eof hf]; rfl
  | mistake cause => rw [settle_of_mistake hf]; rfl
  | token kind value lexeme rest =>
      rw [settle_of_token hf]
      have hkind := (hreads.token_append hf).2.2
      simp [endsSource, hkind]

/-- **A stream is some tokens and then one result that ends it.** -/
theorem exists_results (rules : List Rule) (s : Session) (back : List Char) :
    ∃ (tokens : List Token) (last : Except Error Token),
      (s.sweepText rules back).results = tokens.map .ok ++ [last]
        ∧ endsSource last = true ∧ ∀ token ∈ tokens, token.kind ≠ .eof := by
  induction back using Scan.token_induction rules generalizing s with
  | last cs hrest =>
      obtain ⟨behind, hreads⟩ := Scan.of_reads rules cs
      refine ⟨[], _, (sweepText_of_rest?_none hrest).1, ?_, by simp⟩
      rw [endsSource_settle _ hreads, hrest]
      rfl
  | token cs rest hrest ih =>
      obtain ⟨behind, hreads⟩ := Scan.of_reads rules cs
      obtain ⟨tokens, last, htokens, hlast, hkinds⟩ := ih (s.settle (Scan.of rules cs)).2
      have hends := endsSource_settle (s := s) _ hreads
      rw [hrest] at hends
      cases hresult : (s.settle (Scan.of rules cs)).1 with
      | error error => rw [hresult] at hends; exact absurd hends (by simp [endsSource])
      | ok token =>
          rw [hresult] at hends
          refine ⟨token :: tokens, last, ?_, hlast, ?_⟩
          · rw [(sweepText_of_rest?_some hrest).1, htokens, hresult]
            rfl
          · intro u hu
            rcases List.mem_cons.mp hu with rfl | hu
            · simpa [endsSource] using hends
            · exact hkinds u hu

/-! ## What a session still has to return -/

/-- A session with a list of results still to come, in a source that ends with `last`. -/
inductive Reading (rules : List Rule) (last : Except Error Token) :
    List (Except Error Token) → Session → Prop where
  /-- What is to come is what reading to the end gives. -/
  | going {s : Session} {back : List Char} {pending : List (Except Error Token)} :
      s.finished = false → s.remainder? = some back →
      (s.sweepText rules back).results = pending → pending.getLast? = some last →
      Reading rules last pending s
  /-- Nothing is to come, and a step from here gives the last result again. -/
  | done {s : Session} {back : List Char} {finding : Finding} :
      s.finished = true → s.remainder? = some back →
      Scan.of rules back = ⟨[], finding⟩ → (Scan.mk [] finding).rest? = none →
      (s.settle ⟨[], finding⟩).1 = last →
      Reading rules last [] s

/-- A fresh session has the whole stream to come. -/
theorem reading_start (rules : List Rule) (source : String) (file? : Option String)
    {tokens : List Token}
    (h : ((start source file?).sweepText rules source.toList).results =
      tokens.map .ok ++ [last]) :
    Reading rules last (tokens.map .ok ++ [last]) (start source file?) :=
  .going rfl (remainder?_start source file?) h (by simp)

/-- Once a session is done with, a step that skips nothing and finds no token changes nothing. -/
theorem settle_nil_of_finished {finding : Finding} (hdone : s.finished = true)
    (hrest : (Scan.mk [] finding).rest? = none) : (s.settle ⟨[], finding⟩).2 = s := by
  have hrecorded : s.recordedAfter ⟨[], finding⟩ = s.recorded? := by
    simp [recordedAfter, spansFrom]
  cases finding with
  | eof => rw [settle_of_eof rfl, hrecorded, ← hdone]; rfl
  | mistake cause => rw [settle_of_mistake rfl, hrecorded, ← hdone]; rfl
  | token kind value lexeme rest => exact absurd hrest (by simp [Scan.rest?])

/-- **A step that ends the source can be made again.** It comes to a place where a scan skips
nothing, and from there it returns the same. -/
theorem reading_of_rest?_none (h : s.remainder? = some back)
    (hrest : (Scan.of rules back).rest? = none) :
    Reading rules (s.settle (Scan.of rules back)).1 [] (s.settle (Scan.of rules back)).2 := by
  obtain ⟨behind, hreads⟩ := Scan.of_reads rules back
  have hplace := remainder?_settle h hreads
  have hfinished := settle_finished s (Scan.of rules back)
  rw [Scan.left, hrest] at hplace
  rw [hrest] at hfinished
  refine .done (by simpa using hfinished) hplace hreads.rescan hrest ?_
  -- the cursor is at the finding already, so the finding is made at the same offset
  rcases Scan.rest?_eq_none_iff.mp hrest with hf | ⟨cause, hf⟩
  · rw [hf, settle_of_eof hf, settle_of_eof rfl]
    rfl
  · rw [hf, settle_of_mistake hf, settle_of_mistake rfl]
    rfl

/-- A step that finds a token leaves an open session at the text behind it. -/
theorem place_of_rest?_some {rest : List Char} (hopen : s.finished = false)
    (h : s.remainder? = some back) (hrest : (Scan.of rules back).rest? = some rest) :
    (s.settle (Scan.of rules back)).2.finished = false
      ∧ (s.settle (Scan.of rules back)).2.remainder? = some rest := by
  obtain ⟨behind, hreads⟩ := Scan.of_reads rules back
  have hplace := remainder?_settle h hreads
  have hfinished := settle_finished s (Scan.of rules back)
  rw [Scan.left, hrest] at hplace
  rw [hrest, hopen] at hfinished
  exact ⟨hfinished, hplace⟩

/-- The last of a stream is the last of what is behind its first token. -/
theorem getLast?_results {rest : List Char} (hrest : (Scan.of rules back).rest? = some rest) :
    (s.sweepText rules back).results.getLast? =
      ((s.settle (Scan.of rules back)).2.sweepText rules rest).results.getLast? := by
  obtain ⟨tokens, final, htokens, -, -⟩ :=
    exists_results rules (s.settle (Scan.of rules back)).2 rest
  rw [(sweepText_of_rest?_some hrest).1, htokens, ← List.cons_append, List.getLast?_concat,
    List.getLast?_concat]

/-- Reading to the end leaves nothing to come. -/
theorem reading_sweepText (hopen : s.finished = false) (h : s.remainder? = some back)
    (hlast : (s.sweepText rules back).results.getLast? = some last) :
    Reading rules last [] (s.sweepText rules back).session := by
  induction back using Scan.token_induction rules generalizing s with
  | last cs hrest =>
      rw [(sweepText_of_rest?_none hrest).1] at hlast
      rw [(sweepText_of_rest?_none hrest).2]
      injection hlast with hlast
      rw [← hlast]
      exact reading_of_rest?_none h hrest
  | token cs rest hrest ih =>
      obtain ⟨hopen', hplace⟩ := place_of_rest?_some hopen h hrest
      rw [getLast?_results hrest] at hlast
      rw [(sweepText_of_rest?_some hrest).2]
      exact ih hopen' hplace hlast

/-! ## What a call takes -/

namespace Reading

/-- **A call for the next token takes the first result that is to come.** When there is none it
gives the last one again and changes nothing. -/
theorem nextToken? (hsize : s.size ≤ maxOffset) (h : Reading rules last pending s) :
    ∃ t, s.nextToken? rules = some (pending.head?.getD last, t)
      ∧ Reading rules last pending.tail t ∧ (pending = [] → t = s) := by
  cases h with
  | @going _ back _ hopen hplace hresults hlast =>
      refine ⟨(s.settle (Scan.of rules back)).2, ?_⟩
      rw [nextToken?_eq hsize hplace, ← hresults]
      rw [← hresults] at hlast
      -- the step takes the last result, or it goes on behind a token
      cases hrest : (Scan.of rules back).rest? with
      | none =>
          rw [(sweepText_of_rest?_none hrest).1] at hlast ⊢
          injection hlast with hlast
          refine ⟨rfl, ?_, by simp⟩
          rw [← hlast]
          exact reading_of_rest?_none hplace hrest
      | some rest =>
          obtain ⟨hopen', hplace'⟩ := place_of_rest?_some hopen hplace hrest
          rw [getLast?_results hrest] at hlast
          rw [(sweepText_of_rest?_some hrest).1]
          exact ⟨rfl, .going hopen' hplace' rfl hlast, by simp⟩
  | @done _ back finding hdone hplace hscan hrest hlast =>
      -- a scan from here skips nothing, so the step neither moves the cursor nor records anything
      have hsame := settle_nil_of_finished hdone hrest
      refine ⟨s, ?_, .done hdone hplace hscan hrest hlast, fun _ => rfl⟩
      rw [nextToken?_eq hsize hplace, hscan, List.head?_nil, Option.getD_none]
      exact congrArg some (Prod.ext hlast hsame)

/-- The same with `next?`, which has nothing more to give when nothing is to come. -/
theorem next? (hsize : s.size ≤ maxOffset) (h : Reading rules last pending s) :
    ∃ t, s.next? rules = some (pending.head?, t) ∧ Reading rules last pending.tail t := by
  obtain ⟨t, hnext, hreading, -⟩ := h.nextToken? hsize
  cases h with
  | @going _ back _ hopen hplace hresults hlast =>
      refine ⟨t, ?_, hreading⟩
      rw [nextToken?_eq hsize hplace] at hnext
      injection hnext with hnext
      rw [next?_eq hsize hplace hopen, hnext]
      cases pending with
      | nil => simp at hlast
      | cons result pending => rfl
  | done hdone hplace hscan hrest hlast =>
      exact ⟨s, next?_of_finished hdone, .done hdone hplace hscan hrest hlast⟩

/-- **Reading to the end takes all results at once.** -/
theorem collect? (hsize : s.size ≤ maxOffset) (h : Reading rules last pending s) :
    ∃ t, s.collect? rules = some (pending.mapM id, t) ∧ Reading rules last [] t := by
  cases h with
  | @going _ back _ hopen hplace hresults hlast =>
      rw [← hresults] at hlast
      refine ⟨(s.sweepText rules back).session, ?_, reading_sweepText hopen hplace hlast⟩
      rw [collect?_eq hsize hplace hopen, Sweep.result_eq, hresults]
  | done hdone hplace hscan hrest hlast =>
      exact ⟨s, collect?_of_finished hdone, .done hdone hplace hscan hrest hlast⟩

/-- Starting to record anew takes nothing. -/
theorem recordTrivia (h : Reading rules last pending s) :
    Reading rules last pending s.recordTrivia := by
  have hpos : s.recordTrivia.pos = s.pos := rfl
  have hfile : s.recordTrivia.file = s.file := rfl
  cases h with
  | going hopen hplace hresults hlast =>
      exact .going hopen hplace ((results_congr hpos hfile _).trans hresults) hlast
  | done hdone hplace hscan hrest hlast =>
      exact .done hdone hplace hscan hrest ((settle_result_congr hpos hfile _).1.trans hlast)

end Reading

/-- The results that are left of a list when calls have been answered from it: a call for one
token takes one of them, and reading to the end takes them all. -/
def pendingAfter {α : Type} (results : List α) (calls : List Call) : List α :=
  if Call.collect ∈ calls then [] else results.drop (calls.countP Call.pulls)

/-- Calls take their results one after another. -/
theorem pendingAfter_cons {α : Type} (results : List α) (call : Call) (calls : List Call) :
    pendingAfter results (call :: calls) = pendingAfter (pendingAfter results [call]) calls := by
  unfold pendingAfter
  by_cases hcollect : call = .collect
  · subst hcollect
    simp
  · have hne : ¬ Call.collect = call := fun h => hcollect h.symm
    simp only [List.mem_cons, hne, List.not_mem_nil, or_false, false_or, if_false,
      List.countP_cons, List.countP_nil, List.drop_drop]
    rw [Nat.zero_add, Nat.add_comm]

/-- When there have been as many calls for a token as there are results, none is left. -/
theorem pendingAfter_eq_nil {α : Type} {results : List α} {calls : List Call}
    (hpulls : ∀ call ∈ calls, call.pulls = true) (hlength : results.length ≤ calls.length) :
    pendingAfter results calls = [] := by
  unfold pendingAfter
  split
  · rfl
  · rw [List.countP_eq_length.mpr hpulls]
    exact List.drop_of_length_le hlength

namespace Reading

/-- **A call that does not jump takes its part of what is to come**, and no more. -/
theorem answer (hsize : s.size ≤ maxOffset) (h : Reading rules last pending s) {call : Call}
    (hjump : call.jumps = false) :
    Reading rules last (pendingAfter pending [call]) (s.answer rules call).2 := by
  cases call with
  | nextToken =>
      obtain ⟨t, hnext, hreading, -⟩ := h.nextToken? hsize
      simpa [Session.answer, hnext, pendingAfter, Call.pulls] using hreading
  | next =>
      obtain ⟨t, hnext, hreading⟩ := h.next? hsize
      unfold Session.answer
      rw [hnext]
      cases pending with
      | nil => exact hreading
      | cons result pending => exact hreading
  | collect =>
      obtain ⟨t, hcollect, hreading⟩ := h.collect? hsize
      simpa [Session.answer, hcollect, pendingAfter] using hreading
  | advance bytes => exact absurd hjump (by simp [Call.jumps])
  | recordTrivia => exact h.recordTrivia
  | char =>
      unfold Session.answer
      cases s.remainder? <;> exact h
  | remainder =>
      unfold Session.answer
      cases s.remainder? <;> exact h
  | trivia => exact h
  | atEnd => exact h
  | positionAt offset => exact h
  | span start stop => exact h

/-- **Over a run, calls take their parts one after another.** -/
theorem after {calls : List Call} (hsize : s.size ≤ maxOffset) (h : Reading rules last pending s)
    (hjumps : ∀ call ∈ calls, call.jumps = false) :
    Reading rules last (pendingAfter pending calls) (s.after rules calls) := by
  induction calls generalizing s pending with
  | nil => exact h
  | cons call calls ih =>
      rw [pendingAfter_cons]
      refine ih ?_ (h.answer hsize (hjumps call (by simp))) ?_
      · rw [answer_size]
        exact hsize
      · intro c hc
        exact hjumps c (List.mem_cons_of_mem _ hc)

end Reading

/-- What a call for a token is answered when nothing is to come. -/
def replyAtEnd (last : Except Error Token) (call : Call) : Reply :=
  if call = .next then .exhausted else .ofResult last

namespace Reading

/-- A call for a token is answered with the first result that is to come. -/
theorem answer_of_pulls (hsize : s.size ≤ maxOffset) (h : Reading rules last pending s)
    {call : Call} (hpull : call.pulls = true) :
    ∃ t, s.answer rules call = (pending.head?.elim (replyAtEnd last call) .ofResult, t)
      ∧ Reading rules last pending.tail t := by
  unfold Session.answer
  cases call with
  | nextToken =>
      obtain ⟨t, hnext, hreading, -⟩ := h.nextToken? hsize
      refine ⟨t, ?_, hreading⟩
      rw [hnext]
      cases pending <;> rfl
  | next =>
      obtain ⟨t, hnext, hreading⟩ := h.next? hsize
      refine ⟨t, ?_, hreading⟩
      rw [hnext]
      cases pending <;> rfl
  | _ => exact absurd hpull (by simp [Call.pulls])

/-- **A run of calls for tokens is the stream**, and then the same reply to each further call. -/
theorem run_replies {calls : List Call} (hsize : s.size ≤ maxOffset)
    (h : Reading rules last pending s) (hpulls : ∀ call ∈ calls, call.pulls = true) :
    (s.run rules calls).map (·.1) =
      (pending.take calls.length).map .ofResult
        ++ (calls.drop pending.length).map (replyAtEnd last) := by
  induction calls generalizing s pending with
  | nil => simp
  | cons call calls ih =>
      obtain ⟨t, hanswer, hreading⟩ := h.answer_of_pulls hsize (hpulls call (by simp))
      have hsize' : t.size ≤ maxOffset := by
        have hsame := answer_size rules s call
        rw [hanswer] at hsame
        rw [hsame]
        exact hsize
      rw [run_cons, List.map_cons, hanswer,
        ih hsize' hreading (fun c hc => hpulls c (List.mem_cons_of_mem _ hc))]
      cases pending with
      | nil => simp
      | cons result pending => simp

/-- When the end of the source has been returned, the cursor is there. -/
theorem eof_eq {eof : Token} (hsize : s.size ≤ maxOffset)
    (h : Reading rules (.ok eof) [] s) :
    s.pos = s.size ∧ eof = ⟨.eof, "", ⟨⟨s.size, s.file⟩, ⟨s.size, s.file⟩⟩⟩ := by
  cases h with
  | going hopen hplace hresults hlast => simp at hlast
  | @done _ back finding hdone hplace hscan hrest hlast =>
      obtain ⟨behind, hreads⟩ := Scan.of_reads rules back
      rw [hscan] at hreads
      have hback : behind = back := hreads.append
      cases finding with
      | eof =>
          have hsum := pos_add_width hplace
          rw [← hback, hreads.eof_iff.mp rfl] at hsum
          have hpos : s.pos = s.size := hsum
          rw [settle_of_eof rfl] at hlast
          injection hlast with hlast
          refine ⟨hpos, ?_⟩
          rw [← hlast, span, found, Scan.lead_nil, hsum, positionAt_of_le hsize]
      | mistake cause => exact absurd hlast (by rw [settle_of_mistake rfl]; simp)
      | token kind value lexeme rest => exact absurd hrest (by simp [Scan.rest?])

end Reading

/-! ## Done for good -/

/-- No call opens a session again, not even one that moves the cursor. -/
theorem answer_finished (h : s.finished = true) (call : Call) :
    (s.answer rules call).2.finished = true := by
  unfold answer
  cases call with
  | nextToken =>
      cases hnext : s.nextToken? rules with
      | none => exact h
      | some step =>
          unfold nextToken? at hnext
          split at hnext
          · injection hnext with hnext
            rw [← hnext]
            rfl
          · obtain ⟨rest, _, hsettle⟩ := Option.map_eq_some_iff.mp hnext
            show step.2.finished = true
            rw [← hsettle, settle_finished, h]
            rfl
  | next => rw [next?_of_finished h]; exact h
  | collect => rw [collect?_of_finished h]; exact h
  | char => cases s.remainder? <;> exact h
  | remainder => cases s.remainder? <;> exact h
  | _ => exact h

/-- A session that is done with has nothing more to give, whatever is asked of it before. -/
theorem next_exhausted_of_finished (h : s.finished = true) (calls : List Call) :
    ((s.after rules calls).answer rules .next).1 = .exhausted := by
  have hdone : (s.after rules calls).finished = true :=
    after_induction (P := fun t => t.finished = true) h
      (fun t call _ ht => answer_finished ht call)
  unfold answer
  rw [next?_of_finished hdone]

/-- **All ways of reading read one stream.** Of a source that is not too long, `tokenize` says
what the stream is: some tokens, and the token for the end or the first mistake. Whatever has been
asked of a session before, jumps apart, the next call for a token gets the first result that has
not been taken yet, and reading to the end gets them all. When all are taken, `nextToken` gives
the last result once more and leaves the session as it is, reading to the end gives no tokens, and
`next` gives nothing, even if the cursor is moved later on. -/
theorem answers_read_one_stream (source : String) (file? : Option String)
    (hsize : Text.width source.toList ≤ maxOffset) :
    ∃ (tokens : List Token) (last : Except Error Token),
      (tokenize source file? =
          match last with
          | .ok eof => .ok (tokens ++ [eof])
          | .error error => .error error)
        ∧ endsSource last = true ∧ (∀ token ∈ tokens, token.kind ≠ .eof)
        ∧ ∀ calls : List Call, (∀ call ∈ calls, call.jumps = false) →
          let s := (start source file?).after Rule.table calls
          let pending := pendingAfter (tokens.map .ok ++ [last]) calls
          (s.answer Rule.table .next).1 = pending.head?.elim .exhausted .ofResult
            ∧ (s.answer Rule.table .nextToken).1 = .ofResult (pending.head?.getD last)
            ∧ (s.answer Rule.table .collect).1 = .ofResults (pending.mapM id)
            ∧ (pending = [] →
                (s.answer Rule.table .nextToken).2 = s
                  ∧ ∀ later : List Call,
                    ((s.after Rule.table later).answer Rule.table .next).1 = .exhausted) := by
  obtain ⟨tokens, last, hresults, hlast, hkinds⟩ :=
    exists_results Rule.table (start source file?) source.toList
  have hopen : (start source file?).size ≤ maxOffset := hsize
  refine ⟨tokens, last, ?_, hlast, hkinds, ?_⟩
  · rw [tokenize_eq file? hsize, hresults, mapM_id_stream]
  · intro calls hjumps
    have hreading := (reading_start Rule.table source file? hresults).after hopen hjumps
    have hsize' : ((start source file?).after Rule.table calls).size ≤ maxOffset := by
      rw [after_size]
      exact hsize
    generalize (start source file?).after Rule.table calls = s at hreading hsize'
    generalize pendingAfter (tokens.map .ok ++ [last]) calls = pending at hreading
    obtain ⟨t₁, hnext, -⟩ := hreading.next? hsize'
    obtain ⟨t₂, hnextToken, -, hsame⟩ := hreading.nextToken? hsize'
    obtain ⟨t₃, hcollect, -⟩ := hreading.collect? hsize'
    refine ⟨?_, ?_, ?_, ?_⟩
    · unfold answer
      rw [hnext]
      cases pending.head? <;> rfl
    · unfold answer
      rw [hnextToken]
    · unfold answer
      rw [hcollect]
    · intro hnil
      refine ⟨?_, fun later => ?_⟩
      · unfold answer
        rw [hnextToken]
        exact hsame hnil
      · subst hnil
        cases hreading with
        | going hopen hplace hresults hlast => simp at hlast
        | done hdone hplace hscan hrest hlast => exact next_exhausted_of_finished hdone later

/-- Of a single number, the end is left when the number has been taken. -/
theorem answers_read_one_stream_number :
    Text.width "1".toList ≤ maxOffset
      ∧ (((start "1" none).after Rule.table [.atEnd, .next]).answer Rule.table .collect).1 =
        .ofResults (.ok [⟨.eof, "", ⟨⟨1, "shell"⟩, ⟨1, "shell"⟩⟩⟩]) := by
  have hsize : Text.width "1".toList ≤ maxOffset := by decide
  have htokens : (tokenize "1" none).toOption =
      some ([⟨.number, "1", ⟨⟨0, "shell"⟩, ⟨1, "shell"⟩⟩⟩] ++
        [⟨.eof, "", ⟨⟨1, "shell"⟩, ⟨1, "shell"⟩⟩⟩]) := by decide +kernel
  obtain ⟨tokens, last, hstream, -, -, hanswers⟩ := answers_read_one_stream "1" none hsize
  obtain ⟨-, -, hcollect, -⟩ := hanswers [.atEnd, .next] (by decide)
  rw [hstream] at htokens
  refine ⟨hsize, ?_⟩
  cases last with
  | error error => exact absurd htokens (by simp [Except.toOption])
  | ok eof =>
      obtain ⟨rfl, heof⟩ := List.append_inj' (Option.some.inj htokens) rfl
      injection heof with heof
      subst heof
      exact hcollect

end Session

end ScriptFront
