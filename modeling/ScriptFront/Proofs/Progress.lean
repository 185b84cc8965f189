import ScriptFront.Proofs.Boundaries
import ScriptFront.Proofs.Munch

/-!
# Every reading comes to an end

To find the next token a reader makes turns until one of them is not a skip, and nothing in that
says that it ever stops. It stops because a turn that skips something moves the cursor on. How far
is not the same sum in every case: what a mark moves by is the width of a text that the table has
for it, a string is counted by the scan of its body, and the rest goes by what has been matched. In
all of them it is the size of the span that is returned or kept (`Session.accounted_readMatch`), and
that is never zero.

So there are at most as many turns that skip as there are bytes left, and a reader with a limit that
is higher reads like one without (`Session.inTurns_eq`). The same holds of tokens. Each of them has
at least one byte to itself, so a source has at most one result more than it has bytes
(`Session.length_results_le`), and whoever asks for one item after the other has all of them after
that many calls.
-/

namespace ScriptFront

open Rule

variable {rules : List Rule}

namespace Session

variable {s t : Session} {back : List Char}

/-! ## Turns -/

/-- What the reader comes to in a limited number of turns. There is no result if it has not come to
one by then. -/
def inTurns (rules : List Rule) : Nat → Session → Option (Except Error Token) × Session
  | 0, s => (none, s)
  | turns + 1, s => resume (s.iteration rules) fun t _ => inTurns rules turns t

/-- **There are at most as many skips as there are bytes left**, wherever the cursor is. With one
turn more allowed, the limit makes no difference. -/
theorem inTurns_eq {turns : Nat} (hturns : s.size - s.pos < turns) :
    s.inTurns rules turns = s.readByOffsets rules := by
  induction turns generalizing s with
  | zero => exact absurd hturns (Nat.not_lt_zero _)
  | succ turns ih =>
      rw [inTurns, readByOffsets]
      refine congrArg (resume (s.iteration rules)) ?_
      funext t hskip
      -- the skip takes a turn and at least one byte
      obtain ⟨hsize, hlt, hinside⟩ := pos_lt_of_iteration hskip
      exact ih (by omega)

/-! ## How far the cursor moves -/

/-- The cursor has been moved by the size of what was read. That is the span of the token that is
returned, or the one that is kept, and it is not empty. A mistake does not move it. -/
def Accounted (s : Session) : Outcome × Session → Prop
  | (.stuck, _) => False
  | (.skipped, t) =>
      ∃ span : Span, span.start.offset = s.pos ∧ 0 < span.size ∧ t.pos = s.pos + span.size
        ∧ t.recorded? = s.recorded?.map (· ++ [span])
  | (.result (.ok token), t) =>
      token.span.start.offset = s.pos ∧ 0 < token.span.size ∧ t.pos = s.pos + token.span.size
  | (.result (.error error), t) => error.position.offset = s.pos ∧ t.pos = s.pos

/-- The span of some bytes behind the cursor begins there and is as long as they are. -/
theorem size_span {bytes : Nat} (h : s.pos + bytes ≤ maxOffset) :
    (s.span s.pos (s.pos + bytes)).start.offset = s.pos
      ∧ (s.span s.pos (s.pos + bytes)).size = bytes := by
  rw [span_of_le (Nat.le_add_right _ _) h]
  exact ⟨rfl, Nat.add_sub_cancel_left _ _⟩

/-- **Whatever becomes of a piece, the cursor moves by its lexeme**, if it has one. -/
theorem accounted_take {piece : Piece} (hsize : s.size ≤ maxOffset) (h : s.remainder? = some back)
    (hparts : ∀ lexeme rest, piece.parts? = some (lexeme, rest) →
      lexeme ++ rest = back ∧ lexeme ≠ [])
    (heof : piece ≠ .found .eof) : s.Accounted (s.take piece) := by
  have hsum := pos_add_width h
  have hlexeme : ∀ lexeme rest, piece.parts? = some (lexeme, rest) →
      0 < Text.width lexeme ∧ s.pos + Text.width lexeme ≤ maxOffset := by
    intro lexeme rest hpiece
    obtain ⟨rfl, hne⟩ := hparts lexeme rest hpiece
    rw [Text.width_append] at hsum
    exact ⟨Text.width_pos hne, by omega⟩
  cases piece with
  | skip lexeme rest =>
      obtain ⟨hpos, hle⟩ := hlexeme lexeme rest rfl
      obtain ⟨hstart, hbytes⟩ := size_span hle
      exact ⟨_, hstart, by rw [hbytes]; exact hpos, congrArg (s.pos + ·) hbytes.symm, rfl⟩
  | found finding =>
      cases finding with
      | eof => exact absurd rfl heof
      | token kind value lexeme rest =>
          obtain ⟨hpos, hle⟩ := hlexeme lexeme rest rfl
          obtain ⟨hstart, hbytes⟩ := size_span hle
          exact ⟨hstart, by rw [hbytes]; exact hpos, congrArg (s.pos + ·) hbytes.symm⟩
      | mistake cause => exact ⟨by rw [positionAt_of_le (by omega)], rfl⟩

/-- **For every sort of lexeme, the cursor moves by the span of what is read.** -/
theorem accounted_readMatch (hsize : s.size ≤ maxOffset) (h : s.remainder? = some back)
    {rule : Rule} (hreach : rule.reach back ≠ 0) :
    s.Accounted (s.readMatch rule (back.take (rule.reach back))) := by
  have hdescribes := describes_take_reach hreach
  have hplace : s.remainder? =
      some (back.take (rule.reach back) ++ back.drop (rule.reach back)) := by
    rw [List.take_append_drop]
    exact h
  rw [readMatch_eq hdescribes hplace]
  refine accounted_take hsize hplace ?_ (Piece.ofLexeme_ne_eof _ _ _).1
  intro lexeme rest hparts
  obtain ⟨happend, hstarts⟩ := Piece.append_of_parts?_ofLexeme hparts
  refine ⟨happend, ?_⟩
  rintro rfl
  -- what the rule has matched is a start of the lexeme, and not empty
  have hnil := congrArg List.length (List.prefix_nil.mp hstarts)
  rw [List.length_take_of_le (reach_le_length rule back), List.length_nil] at hnil
  exact hreach hnil

/-- A turn that skips something moves the cursor to the place behind what a rule has matched. -/
theorem exists_matched_of_skipped (h : s.remainder? = some back)
    (hskip : s.iteration rules = (.skipped, t)) :
    ∃ rule matched rest, back = matched ++ rest ∧ matched ≠ []
      ∧ longest rules back = some (rule, matched.length)
      ∧ t.pos = s.pos + Text.width matched ∧ t.remainder? = some rest := by
  rw [iteration_eq h] at hskip
  cases hcut : Piece.cut rules back with
  | found finding =>
      rw [hcut, take_found] at hskip
      exact absurd (congrArg Prod.fst hskip) (by simp)
  | skip lexeme rest =>
      obtain ⟨rfl, hne⟩ := Piece.append_of_cut_skip hcut
      obtain ⟨rule, -, hlongest⟩ := Piece.longest_of_parts?_cut (by rw [hcut]; rfl)
        (fun value hvalue => by
          rw [hcut] at hvalue
          exact absurd hvalue (by simp))
      rw [hcut] at hskip
      have ht : t = (s.pass (Text.width lexeme)).2 := (congrArg Prod.snd hskip).symm
      subst ht
      exact ⟨rule, lexeme, rest, rfl, hne, hlongest, rfl, from?_ahead h⟩

/-- A step that returns a token moves the cursor behind the beginning of the token. -/
theorem start_lt_of_token {token : Token} (hsize : s.size ≤ maxOffset)
    (h : s.remainder? = some back)
    (htoken : s.settle (Scan.of rules back) = (.ok token, t)) (hkind : token.kind ≠ .eof) :
    token.span.start.offset < t.pos := by
  obtain ⟨behind, hreads⟩ := Scan.of_reads rules back
  have hfound := found_add_width h hreads
  cases hf : (Scan.of rules back).finding with
  | eof =>
      rw [settle_of_eof hf] at htoken
      injection htoken with hresult _
      injection hresult with hresult
      rw [← hresult] at hkind
      exact absurd rfl hkind
  | mistake cause =>
      rw [settle_of_mistake hf] at htoken
      exact absurd (congrArg Prod.fst htoken) (by simp)
  | token kind value lexeme rest =>
      obtain ⟨rfl, hne, -⟩ := hreads.token_append hf
      have hpos := Text.width_pos hne
      rw [Text.width_append] at hfound
      rw [settle_of_token hf] at htoken
      injection htoken with hresult ht
      injection hresult with hresult
      rw [← hresult, ← ht, span_of_le (Nat.le_add_right _ _) (by omega)]
      simp only
      omega

/-! ## How many results there are -/

/-- **There is at most one result more than there are bytes.** -/
theorem length_results_le (rules : List Rule) (s : Session) (cs : List Char) :
    (s.sweepText rules cs).results.length ≤ Text.width cs + 1 := by
  induction cs using Scan.finding_induction rules generalizing s with
  | eof cs hf => simp [results_of_eof hf]
  | mistake cs cause hf => simp [results_of_mistake hf]
  | token cs kind value lexeme rest hf ih =>
      obtain ⟨behind, hreads⟩ := Scan.of_reads rules cs
      have hne := (hreads.token_append hf).2.1
      have hpos := Text.width_pos hne
      have hwidth := congrArg Text.width (Scan.lead_append_token hf)
      rw [Text.width_append, Text.width_append] at hwidth
      rw [results_of_token hf, List.length_cons]
      have := ih (s.advance (Text.width (Scan.of rules cs).lead + Text.width lexeme))
      omega

/-- A session that is done with has nothing for any further call for an item. -/
theorem run_next_of_finished (h : s.finished = true) (count : Nat) :
    (s.run rules (List.replicate count .next)).map (·.1) = List.replicate count .exhausted := by
  induction count with
  | zero => rfl
  | succ count ih =>
      have hanswer : s.answer rules .next = (.exhausted, s) := by
        unfold answer
        rw [next?_of_finished h]
      rw [List.replicate_succ, run_cons, hanswer, List.map_cons, ih, List.replicate_succ]

/-- The items that a fresh session gives one after another, before it has nothing more to give. -/
structure Yields (source : String) (file? : Option String) (items : List (Except Error Token)) :
    Prop where
  /-- There are not many of them. -/
  length_le : items.length ≤ Text.width source.toList + 1
  /-- Each call for an item gets one of them, in order, and the calls after that get nothing. -/
  run : ∀ count,
    ((start source file?).run table (List.replicate count .next)).map (·.1) =
      (items.take count).map .ofResult ++ List.replicate (count - items.length) .exhausted
  /-- To read the whole source is to collect them. -/
  tokenize : tokenize source file? = items.mapM id

/-- **Every source yields a limited number of items**, and one that is too long a single one. -/
theorem exists_yields (source : String) (file? : Option String) :
    ∃ items, Yields source file? items := by
  by_cases hsize : Text.width source.toList ≤ maxOffset
  · obtain ⟨tokens, last, hresults, -, -⟩ :=
      exists_results table (start source file?) source.toList
    have hopen : (start source file?).size ≤ maxOffset := hsize
    have hreading := reading_start table source file? hresults
    refine ⟨((start source file?).sweepText table source.toList).results,
      length_results_le table _ _, ?_, tokenize_eq file? hsize⟩
    intro count
    have hpulls : ∀ call ∈ List.replicate count Call.next, call.pulls = true := by
      intro call hcall
      rw [List.eq_of_mem_replicate hcall]
      rfl
    rw [hresults, hreading.run_replies hopen hpulls, List.length_replicate, List.drop_replicate,
      List.map_replicate]
    rfl
  · have hover : Text.width source.toList > maxOffset := Nat.lt_of_not_le hsize
    refine ⟨[.error ⟨.sourceTooLarge (Text.width source.toList), ⟨0, file?.getD unnamed⟩⟩],
      by simp, ?_, tokenize_of_oversize file? hover⟩
    intro count
    cases count with
    | zero => rfl
    | succ count =>
        have hanswer : (start source file?).answer table .next =
            (.error ⟨.sourceTooLarge (Text.width source.toList), ⟨0, file?.getD unnamed⟩⟩,
              (start source file?).finish) := by
          have hlong : (start source file?).oversize? = some _ := if_pos hover
          unfold answer next? nextToken?
          rw [hlong, positionAt_of_le (Nat.zero_le _)]
          rfl
        have hdone : (start source file?).finish.finished = true := rfl
        rw [List.replicate_succ, run_cons, hanswer, List.map_cons, run_next_of_finished hdone]
        simp [Reply.ofResult]

/-- **Every reading comes to an end, because every turn gets on.** From any place in a source,
however the session came there, the next token is what the turns come to if there may be one more of
them than bytes are left. A turn that skips something moves the cursor to the place behind a match
that is not empty and that no rule's match is longer than, and a token that is returned, other than
that for the end, leaves the cursor behind the place where it starts. Whichever rule it is that
matches, the cursor moves by the size of the span that is returned or kept. So a source yields at
most one item more than it has bytes, after which there is nothing more to be had, and to read the
whole of it is to collect these items, however long it is. -/
theorem reading_comes_to_an_end (source : String) :
    (∀ s : Session, s.text = source.toList → s.size ≤ maxOffset → IsBoundary source s.pos →
        (∃ result t, s.nextToken? table = some (result, t)
          ∧ (∀ turns, s.size - s.pos < turns → s.inTurns table turns = (some result, t))
          ∧ ∀ token, result = .ok token → token.kind ≠ .eof → token.span.start.offset < t.pos)
        ∧ (∀ t, s.iteration table = (.skipped, t) →
          ∃ rule matched rest, s.remainder? = some (matched ++ rest) ∧ matched ≠ []
            ∧ longest table (matched ++ rest) = some (rule, matched.length)
            ∧ t.pos = s.pos + Text.width matched ∧ t.remainder? = some rest)
        ∧ ∀ rule back, s.remainder? = some back → rule.reach back ≠ 0 →
          s.Accounted (s.readMatch rule (back.take (rule.reach back))))
      ∧ ∀ file?, ∃ items, Yields source file? items := by
  refine ⟨?_, exists_yields source⟩
  intro s htext hsize hpos
  obtain ⟨back, hplace⟩ := (isBoundary_pos_iff htext).mp hpos
  refine ⟨⟨_, _, nextToken?_eq hsize hplace, ?_, ?_⟩, ?_, ?_⟩
  · intro turns hturns
    exact (inTurns_eq hturns).trans (readByOffsets_eq hplace)
  · intro token htoken hkind
    exact start_lt_of_token hsize hplace (Prod.ext htoken rfl) hkind
  · intro t hskip
    obtain ⟨rule, matched, rest, rfl, hmatched⟩ := exists_matched_of_skipped hplace hskip
    exact ⟨rule, matched, rest, hplace, hmatched⟩
  · intro rule back' hback hreach
    exact accounted_readMatch hsize hback hreach

/-- Behind the name there are a comment and two separators to skip, so two turns do not come to
anything, and the bytes of a string count, not its characters. The source is eleven bytes long. -/
theorem reading_comes_to_an_end_comment :
    let s : Session := ⟨"a//.\n \"é+\"".toList, "main", 1, some [], true⟩
    s.size ≤ maxOffset ∧ IsBoundary "a//.\n \"é+\"" s.pos
      ∧ (s.inTurns table 2).1 = none
      ∧ (∃ t, s.inTurns table 11 =
          (some (.ok ⟨.string, "é+", ⟨⟨6, "main"⟩, ⟨11, "main"⟩⟩⟩), t) ∧ 6 < t.pos)
      ∧ (∃ t rest, s.iteration table = (.skipped, t) ∧ t.pos = 4 ∧ t.remainder? = some rest)
      ∧ comment.reach "//.\n \"é+\"".toList = 3
      ∧ s.Accounted (s.readMatch comment "//.".toList)
      ∧ ∃ items : List (Except Error Token),
          items.length ≤ 12 ∧ tokenize "a//.\n \"é+\"" none = items.mapM id := by
  intro s
  have hsize : s.size ≤ maxOffset := by decide
  have hpos : IsBoundary "a//.\n \"é+\"" s.pos := by decide +kernel
  have hplace : s.remainder? = some "//.\n \"é+\"".toList := by decide +kernel
  have hreach : comment.reach "//.\n \"é+\"".toList = 3 := by decide +kernel
  obtain ⟨hreading, hyields⟩ := reading_comes_to_an_end "a//.\n \"é+\""
  obtain ⟨⟨result, t, hnext, hturns, hmoved⟩, hskips, hmatches⟩ := hreading s rfl hsize hpos
  have hresult : (s.nextToken? table).map (·.1) =
      some (.ok ⟨.string, "é+", ⟨⟨6, "main"⟩, ⟨11, "main"⟩⟩⟩) := by decide +kernel
  rw [hnext] at hresult
  obtain rfl : result = _ := Option.some.inj hresult
  refine ⟨hsize, hpos, by decide +kernel, ⟨t, hturns 11 (by decide), hmoved _ rfl (by decide)⟩, ?_,
    hreach, ?_, ?_⟩
  · have hskip : s.iteration table = (.skipped, (s.iteration table).2) :=
      Prod.ext rfl rfl
    obtain ⟨rule, matched, rest, -, -, -, -, hrest⟩ := hskips _ hskip
    exact ⟨_, rest, hskip, by decide +kernel, hrest⟩
  · have haccounted := hmatches comment _ hplace (by rw [hreach]; decide)
    rw [hreach] at haccounted
    exact haccounted
  · obtain ⟨items, hitems⟩ := hyields none
    exact ⟨items, hitems.length_le, hitems.tokenize⟩

end Session

end ScriptFront
