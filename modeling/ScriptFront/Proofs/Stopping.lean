import Mathlib.Control.Monad.Basic
import ScriptFront.Proofs.Results

/-!
# What has been read stands on its own

Cut a source off where a reader stands, and reading what is left gives the tokens that the reader
has been given, and the end. This is not so at every offset. A source that is cut off in a string
or between two ampersands has a mistake in it, and one that is cut off in a word has another word
at its end. But where a reader stands a token has just ended, and a token does not change when what
is behind it is cut off (`Scan.of_token_of_isPrefix`). The same holds where a mistake was made: in
front of it there are only blanks.

The invariant is `HasRead`. It says of a session how far it has come from where it set out and which
tokens it was given on the way, and that these tokens are read again from the part of the text
behind it, whatever start of the text still ahead is kept. A call for the next item that gives a
token keeps it (`HasRead.next`), and so do all that follow (`HasRead.run`).
-/

namespace ScriptFront

open Rule

/-- **A scan that finds a token finds it when the text behind the token is cut short.** -/
theorem Scan.of_token_of_isPrefix {cs lexeme rest short : List Char} {kind : Kind} {value : String}
    (h : (of table cs).finding = .token kind value lexeme rest) (hshort : short <+: rest) :
    (of table ((of table cs).lead ++ (lexeme ++ short))).lead = (of table cs).lead
      ∧ (of table ((of table cs).lead ++ (lexeme ++ short))).finding =
        .token kind value lexeme short := by
  obtain ⟨behind, hreads⟩ := of_reads table cs
  have hcut := hreads.cut
  rw [h, (hreads.token_append h).1] at hcut
  exact of_lead_append (by rw [h]; simp) (Piece.cut_token_of_isPrefix hcut hshort)

namespace Session

variable {s t : Session} {front back : List Char} {tokens : List Token}

/-- A session `t` that has read some tokens since it was `s`: it went over the text `front`, and
`back` is still ahead of it. -/
structure HasRead (s t : Session) (front back : List Char) (tokens : List Token) : Prop where
  /-- What is still ahead. -/
  place : t.remainder? = some back
  /-- Neither the end nor a mistake has been returned. -/
  isOpen : t.finished = false
  /-- The cursor has moved over what was read. -/
  pos : t.pos = s.pos + Text.width front
  /-- Positions count in the same file. -/
  file : t.file = s.file
  /-- Any start of what is ahead may be kept, and reading from `s` gives the same tokens and goes on
  as reading from `t`. -/
  results : ∀ short, short <+: back →
    (s.sweepText table (front ++ short)).results =
      tokens.map .ok ++ (t.sweepText table short).results

/-- At the start nothing has been read. -/
theorem hasRead_start (source : String) (file? : Option String) :
    HasRead (start source file?) (start source file?) [] source.toList [] where
  place := remainder?_start source file?
  isOpen := rfl
  pos := rfl
  file := rfl
  results := fun _ _ => rfl

namespace HasRead

/-- The next item is what a scan of the text ahead finds. -/
theorem answer_next (hsize : t.size ≤ maxOffset) (h : HasRead s t front back tokens) :
    t.answer table .next =
      (.ofResult (t.settle (Scan.of table back)).1, (t.settle (Scan.of table back)).2) := by
  unfold answer
  rw [next?_eq hsize h.place h.isOpen]

/-- **An item that is a token is one more token that has been read.** -/
theorem next (hsize : t.size ≤ maxOffset) (h : HasRead s t front back tokens) {token : Token}
    (hkind : token.kind ≠ .eof) (hreply : (t.answer table .next).1 = .token token) :
    ∃ read rest, back = read ++ rest
      ∧ HasRead s (t.answer table .next).2 (front ++ read) rest (tokens ++ [token]) := by
  rw [h.answer_next hsize] at hreply ⊢
  cases hf : (Scan.of table back).finding with
  | eof =>
      rw [settle_of_eof hf] at hreply
      injection hreply with hreply
      exact absurd (by rw [← hreply]) hkind
  | mistake cause =>
      rw [settle_of_mistake hf] at hreply
      exact absurd hreply (by simp [Reply.ofResult])
  | token kind value lexeme rest =>
      have hrest := Scan.rest?_eq_some_iff.mpr ⟨kind, value, lexeme, hf⟩
      obtain ⟨hopen, hplace⟩ := place_of_rest?_some h.isOpen h.place hrest
      have hback := Scan.lead_append_token hf
      rw [← List.append_assoc] at hback
      rw [settle_of_token hf] at hreply hopen hplace ⊢
      injection hreply with hreply
      refine ⟨(Scan.of table back).lead ++ lexeme, rest, hback.symm, hplace, hopen, ?_, h.file, ?_⟩
      · simp only [found, h.pos, Text.width_append, Nat.add_assoc]
      · -- what is kept behind the token goes on from behind it
        intro short hshort
        have hwithin : ((Scan.of table back).lead ++ lexeme) ++ short <+: back := by
          obtain ⟨tail, htail⟩ := hshort
          exact ⟨tail, by rw [List.append_assoc, htail, hback]⟩
        obtain ⟨hlead, hfinding⟩ := Scan.of_token_of_isPrefix hf hshort
        rw [List.append_assoc, h.results _ hwithin, List.append_assoc, results_of_token hfinding,
          found, hlead, List.map_append, List.append_assoc, ← hreply]
        refine congrArg (fun results => _ ++ _ :: results) (results_congr ?_ ?_ short)
        · simp only [found, advance, Nat.add_assoc]
        · rfl

/-- **So is each of several.** -/
theorem run (hsize : t.size ≤ maxOffset) (h : HasRead s t front back tokens) {n : Nat}
    {more : List Token} (hkinds : ∀ token ∈ more, token.kind ≠ .eof)
    (hitems : (t.run table (List.replicate n .next)).map (·.1) = more.map .token) :
    ∃ read rest, back = read ++ rest
      ∧ HasRead s (t.after table (List.replicate n .next)) (front ++ read) rest
        (tokens ++ more) := by
  induction n generalizing t front back tokens more with
  | zero =>
      have hmore : more = [] := List.map_eq_nil_iff.mp hitems.symm
      subst hmore
      exact ⟨[], back, rfl, by rw [List.append_nil, List.append_nil]; exact h⟩
  | succ n ih =>
      rw [List.replicate_succ, run_cons, List.map_cons] at hitems
      cases more with
      | nil => exact absurd hitems (by simp)
      | cons token more =>
          injection hitems with hitem hitems
          obtain ⟨read, rest, rfl, hread⟩ := h.next hsize (hkinds token (by simp)) hitem
          have hsize' : (t.answer table .next).2.size ≤ maxOffset := by
            rw [answer_size]
            exact hsize
          obtain ⟨read', rest', rfl, hread'⟩ := ih hsize' hread
            (fun u hu => hkinds u (List.mem_cons_of_mem _ hu)) hitems
          refine ⟨read ++ read', rest', (List.append_assoc _ _ _).symm, ?_⟩
          rw [List.replicate_succ, after_cons, ← List.append_assoc, List.append_cons]
          exact hread'

/-- **If the text is cut off where the session stands, the tokens are followed by the end.** -/
theorem results_at_pos (h : HasRead s t front back tokens) :
    (s.sweepText table front).results =
      tokens.map .ok ++ [.ok ⟨.eof, "", s.span t.pos t.pos⟩] := by
  have hresults := h.results [] List.nil_prefix
  have heof := @results_of_eof table t [] (by rw [Scan.of_nil])
  have hspan : t.span t.pos t.pos = s.span t.pos t.pos := by
    simp only [span, positionAt, h.file]
  rw [List.append_nil, heof, Scan.of_nil, found, Scan.lead_nil] at hresults
  rw [hresults, ← hspan]
  rfl

/-- **So they are if it is cut off where the next item is a mistake.** -/
theorem results_at_mistake (hsize : t.size ≤ maxOffset) (h : HasRead s t front back tokens)
    {error : Error} (hreply : (t.answer table .next).1 = .error error) :
    ∃ blank rest, back = blank ++ rest
      ∧ error.position.offset = s.pos + Text.width (front ++ blank)
      ∧ (s.sweepText table (front ++ blank)).results =
        tokens.map .ok ++
          [.ok ⟨.eof, "", s.span error.position.offset error.position.offset⟩] := by
  rw [h.answer_next hsize] at hreply
  obtain ⟨behind, hreads⟩ := Scan.of_reads table back
  have hfound := found_add_width h.place hreads
  cases hf : (Scan.of table back).finding with
  | eof =>
      rw [settle_of_eof hf] at hreply
      exact absurd hreply (by simp [Reply.ofResult])
  | token kind value lexeme rest =>
      rw [settle_of_token hf] at hreply
      exact absurd hreply (by simp [Reply.ofResult])
  | mistake cause =>
      rw [settle_of_mistake hf, positionAt_of_le (by omega)] at hreply
      injection hreply with hreply
      have hoffset : error.position.offset = t.found (Scan.of table back) := by rw [← hreply]
      -- all that is left in front of the mistake are blanks, and at their end is the end
      have hblanks := Scan.blanks_lead fun hnil => by
        rw [Scan.finding_eq_eof_iff.mpr hnil] at hf
        exact absurd hf (by simp)
      have hresults := h.results _ ⟨behind, hreads.append⟩
      have heof := @results_of_eof table (t.advance (Text.width (Scan.of table back).lead)) []
        (by rw [Scan.of_nil])
      rw [← List.append_nil (Scan.of table back).lead, results_blanks hblanks, heof, Scan.of_nil,
        found_advance, List.append_nil] at hresults
      refine ⟨(Scan.of table back).lead, behind, hreads.append.symm, ?_, ?_⟩
      · rw [hoffset, found, h.pos, Text.width_append, Nat.add_assoc]
      · rw [hresults, hoffset]
        simp only [span, positionAt, advance, found, h.file, Scan.lead_nil]
        rfl

end HasRead

/-- **A source that is cut off at a stopping point is read as the tokens up to there.** Let the
first items of a fresh session be tokens, and none of them the one for the end. If the source is
cut off where the session then stands, or where the next item is a mistake, what is left is read
without a mistake, as these tokens and the one for the end. -/
theorem tokenize_up_to_stop (source : String) (file? : Option String)
    (hsize : Text.width source.toList ≤ maxOffset) {n stop : Nat} {tokens : List Token}
    (hkinds : ∀ token ∈ tokens, token.kind ≠ .eof)
    (hitems : ((start source file?).run table (List.replicate n .next)).map (·.1) =
      tokens.map .token)
    (hstop : stop = ((start source file?).after table (List.replicate n .next)).pos
      ∨ ∃ error, (((start source file?).after table (List.replicate n .next)).answer
          table .next).1 = .error error
        ∧ stop = error.position.offset) :
    ∃ front back, Text.splitAtByte? stop source.toList = some (front, back)
      ∧ tokenize (String.ofList front) file? =
        .ok (tokens ++ [⟨.eof, "", ⟨⟨stop, file?.getD unnamed⟩, ⟨stop, file?.getD unnamed⟩⟩⟩]) := by
  have hopen : (start source file?).size ≤ maxOffset := hsize
  obtain ⟨read, rest, hsource, hread⟩ := (hasRead_start source file?).run hopen hkinds hitems
  rw [List.nil_append, List.nil_append] at hread
  -- in either case a start of the source is read as the tokens and the end
  have hresults : ∃ front back, source.toList = front ++ back ∧ stop = Text.width front
      ∧ ((start source file?).sweepText table front).results =
        tokens.map .ok ++ [.ok ⟨.eof, "", (start source file?).span stop stop⟩] := by
    rcases hstop with rfl | ⟨error, herror, rfl⟩
    · exact ⟨read, rest, hsource, by rw [hread.pos, start, Nat.zero_add], hread.results_at_pos⟩
    · obtain ⟨blank, back, rfl, hoffset, hresults⟩ :=
        hread.results_at_mistake (by rw [after_size]; exact hopen) herror
      refine ⟨read ++ blank, back, by rw [hsource, List.append_assoc], ?_, hresults⟩
      rw [hoffset, start, Nat.zero_add]
  obtain ⟨front, back, hfront, rfl, hresults⟩ := hresults
  rw [hfront, Text.width_append] at hsize
  refine ⟨front, back, Text.splitAtByte?_eq_some_iff.mpr ⟨hfront, rfl⟩, ?_⟩
  have hcongr : ((start (String.ofList front) file?).sweepText table front).results =
      ((start source file?).sweepText table front).results := by
    refine results_congr ?_ ?_ _ <;> rfl
  rw [tokenize_eq file? (by rw [String.toList_ofList]; omega), String.toList_ofList, hcongr,
    hresults, mapM_id_stream, span, positionAt_of_le (by omega)]
  rfl

/-- A word, a comment and a string that is not closed, cut off in front of the string. -/
theorem tokenize_up_to_stop_string :
    Text.width "if//é\n\"x".toList ≤ maxOffset
      ∧ ((start "if//é\n\"x" none).run table (List.replicate 1 .next)).map (·.1) =
        [⟨.keyword .ifWord, "", ⟨⟨0, "shell"⟩, ⟨2, "shell"⟩⟩⟩].map .token
      ∧ (((start "if//é\n\"x" none).after table (List.replicate 1 .next)).answer table .next).1 =
        .error ⟨.unterminatedString, ⟨7, "shell"⟩⟩
      ∧ tokenize "if//é\n" none =
        .ok ([⟨.keyword .ifWord, "", ⟨⟨0, "shell"⟩, ⟨2, "shell"⟩⟩⟩] ++
          [⟨.eof, "", ⟨⟨7, "shell"⟩, ⟨7, "shell"⟩⟩⟩]) := by
  have hsize : Text.width "if//é\n\"x".toList ≤ maxOffset := by decide
  have hitems : ((start "if//é\n\"x" none).run table (List.replicate 1 .next)).map (·.1) =
      [⟨.keyword .ifWord, "", ⟨⟨0, "shell"⟩, ⟨2, "shell"⟩⟩⟩].map .token := by decide +kernel
  have herror : (((start "if//é\n\"x" none).after table (List.replicate 1 .next)).answer
      table .next).1 = .error ⟨.unterminatedString, ⟨7, "shell"⟩⟩ := by decide +kernel
  obtain ⟨front, back, hsplit, htokens⟩ := tokenize_up_to_stop "if//é\n\"x" none hsize
    (by decide) hitems (Or.inr ⟨_, herror, rfl⟩)
  have hcut : Text.splitAtByte? 7 "if//é\n\"x".toList = some ("if//é\n".toList, "\"x".toList) := by
    decide
  refine ⟨hsize, hitems, herror, ?_⟩
  obtain ⟨rfl, -⟩ := Prod.mk.inj (Option.some.inj (hsplit.symm.trans hcut))
  exact htokens

end Session

end ScriptFront
