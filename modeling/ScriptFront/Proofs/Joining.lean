import Mathlib.Control.Monad.Basic
import ScriptFront.Proofs.Results

/-!
# Two sources with a newline between them

A newline keeps two sources apart. No lexeme goes on past it, since it is a separator and ends a
comment, so what is read of the first source is what is read of it alone. The one exception is a
string that is still open at the end of the first source: it takes in the newline, and there is
no telling where it ends.

The end of the first source gives way to the results of the second. Blanks at its end join the
newline and those that the second begins with, and nothing comes of that (`results_blanks`). So the
tokens of the two sources stand one after the other, those of the second shifted by what is in
front of it, and of two mistakes the first counts.
-/

namespace ScriptFront

open Rule

/-- **A scan that finds something does not see what stands behind a newline**, unless it is in a
string that is not closed. -/
theorem Scan.of_append_newline {cs : List Char} (heof : (of table cs).finding ≠ .eof)
    (hclosed : (of table cs).finding ≠ .mistake .unterminatedString) (more : List Char) :
    (of table (cs ++ '\n' :: more)).lead = (of table cs).lead
      ∧ (of table (cs ++ '\n' :: more)).finding =
        (of table cs).finding.before ('\n' :: more) := by
  obtain ⟨behind, hreads⟩ := of_reads table cs
  have hcut := Piece.cut_append hreads.cut heof hclosed (by decide : isSeparator '\n' = true) more
  have hsame := of_lead_append heof hcut
  rw [← List.append_assoc, hreads.append] at hsame
  exact hsame

namespace Session

variable {s : Session} {cs : List Char} {tokens : List Token} {last : Except Error Token}

/-- What comes in place of the last result of a text when other results follow: they take the place
of its end, but a mistake stays and nothing follows it. -/
def inPlaceOf (last : Except Error Token) (results : List (Except Error Token)) :
    List (Except Error Token) :=
  match last with
  | .ok _ => results
  | .error error => [.error error]

/-- A stream of one result has no tokens in front of it. -/
theorem eq_of_stream_singleton {result : Except Error Token}
    (h : [result] = tokens.map Except.ok ++ [last]) : tokens = [] ∧ last = result := by
  cases tokens with
  | nil =>
      injection h with h _
      exact ⟨rfl, h.symm⟩
  | cons token tokens =>
      injection h with _ h
      exact absurd h.symm (by simp)

/-- **Behind a newline the results of the second text follow those of the first.** -/
theorem results_append_newline
    (h : (s.sweepText table cs).results = tokens.map .ok ++ [last])
    (hclosed : ∀ error, last = .error error → error.cause ≠ .unterminatedString)
    (more : List Char) :
    (s.sweepText table (cs ++ '\n' :: more)).results =
      tokens.map .ok ++
        inPlaceOf last ((s.advance (Text.width cs + 1)).sweepText table more).results := by
  induction cs using Scan.finding_induction table generalizing s tokens with
  | eof cs hf =>
      -- nothing but blanks up to the newline, and the newline ends a comment if there is one
      have hblanks := Scan.blanks_append_newline (Scan.finding_eq_eof_iff.mp hf)
      rw [results_of_eof hf] at h
      obtain ⟨rfl, rfl⟩ := eq_of_stream_singleton h
      rw [List.append_cons, results_blanks hblanks, Text.width_append]
      rfl
  | mistake cs cause hf =>
      rw [results_of_mistake hf] at h
      obtain ⟨rfl, rfl⟩ := eq_of_stream_singleton h
      have hopen : cause ≠ .unterminatedString := hclosed _ rfl
      obtain ⟨hlead, hfinding⟩ := Scan.of_append_newline
        (by rw [hf]; simp) (by rw [hf]; simpa using hopen) more
      rw [hf] at hfinding
      rw [results_of_mistake hfinding, found, hlead]
      rfl
  | token cs kind value lexeme rest hf ih =>
      have hwidth := congrArg Text.width (Scan.lead_append_token hf)
      rw [Text.width_append, Text.width_append] at hwidth
      obtain ⟨hlead, hfinding⟩ := Scan.of_append_newline (by rw [hf]; simp) (by rw [hf]; simp) more
      rw [hf] at hfinding
      rw [results_of_token hf] at h
      cases tokens with
      | nil =>
          -- a token is not the last result, since something is found behind it
          injection h with _ hnil
          obtain ⟨others, final, hothers, -, -⟩ := exists_results table
            (s.advance (Text.width (Scan.of table cs).lead + Text.width lexeme)) rest
          rw [hnil] at hothers
          exact absurd hothers.symm (by simp)
      | cons token tokens =>
          injection h with htoken hothers
          have hgoes := ih hothers
          rw [advance_advance, ← Nat.add_assoc, Nat.add_assoc (Text.width _), hwidth] at hgoes
          rw [results_of_token hfinding, found, hlead, hgoes]
          exact congrArg (· :: _) htoken

/-- A stream of which the end gives way to other results, as one answer. -/
theorem mapM_id_append (tokens : List Token) (results : List (Except Error Token)) :
    (tokens.map Except.ok ++ results).mapM id = (results.mapM id).map (tokens ++ ·) := by
  induction tokens with
  | nil =>
      show results.mapM id = _
      cases results.mapM id <;> rfl
  | cons token tokens ih =>
      simp only [List.map_cons, List.cons_append, List.mapM_cons, id, ih]
      cases results.mapM id <;> rfl

end Session

/-- **A newline between two sources keeps them apart.** If the first source is read without a
mistake, then the two of them with a newline between are read as its tokens, without the one for
its end, and then as the second source, with all offsets shifted by what stands in front of it: its
tokens follow, or its mistake is made. If there is a mistake in the first source, then the same
mistake is made whatever follows, unless it is that a string is not closed. -/
theorem tokenize_append_newline (first second : String) (file? : Option String)
    (hsize : Text.width (first ++ "\n" ++ second).toList ≤ maxOffset) :
    (∀ tokens eof, tokenize first file? = .ok (tokens ++ [eof]) →
        tokenize (first ++ "\n" ++ second) file? =
          match tokenize second file? with
          | .ok others =>
              .ok (tokens ++ others.map (Token.shift (Text.width first.toList + 1)))
          | .error error => .error (error.shift (Text.width first.toList + 1)))
      ∧ ∀ error, tokenize first file? = .error error → error.cause ≠ .unterminatedString →
          tokenize (first ++ "\n" ++ second) file? = .error error := by
  have htext : (first ++ "\n" ++ second).toList = first.toList ++ '\n' :: second.toList := by
    rw [String.toList_append, String.toList_append, List.append_assoc]
    rfl
  rw [Session.tokenize_eq file? hsize]
  rw [htext] at hsize ⊢
  simp only [Text.width_append, Text.width_cons] at hsize
  have hnewline : '\n'.utf8Size = 1 := rfl
  have hsize₁ : Text.width first.toList ≤ maxOffset := by omega
  have hsize₂ : Text.width second.toList ≤ maxOffset := by omega
  rw [Session.tokenize_eq file? hsize₁, Session.tokenize_eq file? hsize₂]
  obtain ⟨tokens, last, hfirst, -, -⟩ :=
    Session.exists_results table (Session.start first file?) first.toList
  -- the results of the second source are the same from behind the newline, only further on
  have hsecond : (((Session.start first file?).advance (Text.width first.toList + 1)).sweepText
      table second.toList).results =
        ((Session.start second file?).sweepText table second.toList).results.map
          (Session.shiftResult (Text.width first.toList + 1)) := by
    rw [← Session.results_shift (by simp only [Session.start]; omega)]
    refine Session.results_congr ?_ ?_ _ <;> rfl
  have hjoined : (∀ error, last = .error error → error.cause ≠ .unterminatedString) →
      ((Session.start (first ++ "\n" ++ second) file?).sweepText table
          (first.toList ++ '\n' :: second.toList)).results =
        tokens.map .ok ++ Session.inPlaceOf last
          (((Session.start second file?).sweepText table second.toList).results.map
            (Session.shiftResult (Text.width first.toList + 1))) := by
    intro hclosed
    rw [← hsecond, ← Session.results_append_newline hfirst hclosed second.toList]
    refine Session.results_congr ?_ ?_ _ <;> rfl
  rw [hfirst, Session.mapM_id_stream]
  constructor
  · intro others eof htokens
    cases last with
    | error error => exact absurd htokens (by simp)
    | ok final =>
        obtain ⟨rfl, -⟩ := List.append_inj' (Except.ok.inj htokens) rfl
        rw [hjoined (by simp), Session.inPlaceOf, Session.mapM_id_append, Session.mapM_id_shift]
        generalize ((Session.start second file?).sweepText table second.toList).results.mapM id =
          others
        cases others <;> rfl
  · intro error herror hcause
    cases last with
    | ok final => exact absurd herror (by simp)
    | error other =>
        injection herror with herror
        subst herror
        rw [hjoined (by simpa using hcause), Session.inPlaceOf, Session.mapM_id_append]
        rfl

/-- A comment that the newline ends in front of a string, and a malformed number in front of what
would make it longer. -/
theorem tokenize_append_newline_comment :
    Text.width ("a//" ++ "\n" ++ "\"é\"").toList ≤ maxOffset
      ∧ tokenize "a//" none = .ok
        ([⟨.identifier, "a", ⟨⟨0, "shell"⟩, ⟨1, "shell"⟩⟩⟩] ++
          [⟨.eof, "", ⟨⟨3, "shell"⟩, ⟨3, "shell"⟩⟩⟩])
      ∧ tokenize ("a//" ++ "\n" ++ "\"é\"") none = .ok
        [⟨.identifier, "a", ⟨⟨0, "shell"⟩, ⟨1, "shell"⟩⟩⟩,
          ⟨.string, "é", ⟨⟨4, "shell"⟩, ⟨8, "shell"⟩⟩⟩,
          ⟨.eof, "", ⟨⟨8, "shell"⟩, ⟨8, "shell"⟩⟩⟩]
      ∧ Text.width ("1.2.3" ++ "\n" ++ ".4").toList ≤ maxOffset
      ∧ tokenize "1.2.3" none = .error ⟨.malformedNumber "1.2.3", ⟨0, "shell"⟩⟩
      ∧ tokenize ("1.2.3" ++ "\n" ++ ".4") none =
        .error ⟨.malformedNumber "1.2.3", ⟨0, "shell"⟩⟩ := by
  have hsize : Text.width ("a//" ++ "\n" ++ "\"é\"").toList ≤ maxOffset := by decide
  have hfirst : tokenize "a//" none = .ok
      ([⟨.identifier, "a", ⟨⟨0, "shell"⟩, ⟨1, "shell"⟩⟩⟩] ++
        [⟨.eof, "", ⟨⟨3, "shell"⟩, ⟨3, "shell"⟩⟩⟩]) := by decide +kernel
  have hsecond : tokenize "\"é\"" none = .ok
      [⟨.string, "é", ⟨⟨0, "shell"⟩, ⟨4, "shell"⟩⟩⟩,
        ⟨.eof, "", ⟨⟨4, "shell"⟩, ⟨4, "shell"⟩⟩⟩] := by decide +kernel
  have hsize' : Text.width ("1.2.3" ++ "\n" ++ ".4").toList ≤ maxOffset := by decide
  have hmalformed : tokenize "1.2.3" none =
      .error ⟨.malformedNumber "1.2.3", ⟨0, "shell"⟩⟩ := by decide +kernel
  refine ⟨hsize, hfirst, ?_, hsize', hmalformed, ?_⟩
  · rw [(tokenize_append_newline "a//" "\"é\"" none hsize).1 _ _ hfirst, hsecond]
    rfl
  · exact (tokenize_append_newline "1.2.3" ".4" none hsize').2 _ hmalformed (by simp)

end ScriptFront
