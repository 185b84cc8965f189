import ScriptFront.Proofs.Agreement
import ScriptFront.Proofs.ClosingQuote

/-!
# How far a string reaches

A string token begins with a quote and ends with one. Which one is a matter of the text behind the
first: the first quote there that is not escaped. `StringBody.exists_decode?_iff` says that of a
body. Here it is said of the tokens that a session returns, with their offsets in the source.

One half goes from a token to its text. Whatever calls it is returned by, it was cut off the source
where its span is, and what was cut off is a quote and a body that is decoded up to its last byte.
The body is decoded the same with all the rest of the source behind it, so its end is the end of
that text (`Session.string_of_mem_returnedIn`). The other half goes from a quote behind the cursor
to what is returned for it: a token that reaches as far as the end of the body
(`Session.nextToken_quote_of_endsAt`), or a mistake at the quote if the body has none
(`Session.nextToken_quote_of_not_closesAt`).
-/

namespace ScriptFront

open Rule StringBody

variable {rules : List Rule}

namespace Session

variable {s : Session} {body : List Char}

/-- **A string token reaches from a quote to the end of the body behind it.** -/
theorem string_of_mem_returnedIn (hsize : s.size ≤ maxOffset) {calls : List Call} {token : Token}
    (h : token ∈ s.returnedIn rules calls) (hkind : token.kind = .string) :
    ∃ front body offset, s.text = front ++ '"' :: body ∧ EndsAt body offset
      ∧ token.span =
        ⟨⟨Text.width front, s.file⟩, ⟨Text.width front + 1 + offset + 1, s.file⟩⟩ := by
  have heof : token.kind ≠ .eof := by
    rw [hkind]
    simp
  obtain ⟨lexeme, rest, ⟨front, htext, hspan⟩, hcut⟩ := marks_of_mem_returnedIn hsize h heof
  have hwritten := Piece.written_of_cut hcut
  rw [hkind] at hwritten
  generalize token.value = value at hwritten
  cases hwritten with
  | spelling hspelling => exact absurd hspelling (by simp [Kind.spelling?])
  | @string body value hread =>
      -- behind the closing quote stands the rest of the source, and it makes no difference
      obtain ⟨offset, hends, hwidth⟩ :=
        endsAt_of_decode? (decode?_of_read? (read?_append hread rest))
      have hstop : Text.width front + Text.width ('"' :: body) =
          Text.width front + 1 + offset + 1 := by
        rw [Text.width_quote, hwidth]
        omega
      rw [hstop] at hspan
      exact ⟨front, body ++ rest, offset, htext, hends, hspan⟩

/-- If the body behind a quote has an end, the next token is a string that reaches up to it. -/
theorem nextToken_quote_of_endsAt {offset : Nat} (hsize : s.size ≤ maxOffset)
    (h : s.remainder? = some ('"' :: body)) (hends : EndsAt body offset) :
    ∃ value, (s.answer table .nextToken).1 =
      .token ⟨.string, value, ⟨⟨s.pos, s.file⟩, ⟨s.pos + 1 + offset + 1, s.file⟩⟩⟩ := by
  obtain ⟨value, hdecode⟩ := exists_decode?_iff.mpr ⟨offset, hends, rfl⟩
  obtain ⟨⟨meaning, n⟩, hread, hpair⟩ := Option.map_eq_some_iff.mp hdecode
  injection hpair with _ hwidth
  have hcut : Piece.cut table ('"' :: body) =
      .found (.token .string (String.ofList meaning) ('"' :: body.take n) (body.drop n)) := by
    rw [Piece.cut_quote, Piece.ofString, hread]
    rfl
  have hsum := pos_add_width h
  have hparts := congrArg Text.width (List.take_append_drop n body)
  rw [Text.width_append] at hparts
  rw [Text.width_quote] at hsum
  refine ⟨String.ofList meaning, ?_⟩
  unfold answer
  rw [nextToken?_eq hsize h, Scan.of_eq_of_found hcut, settle_of_token rfl]
  dsimp only [Session.found, Scan.lead_nil, Text.width_nil]
  rw [Nat.add_zero, Text.width_quote, hwidth, ← Nat.add_assoc, ← Nat.add_assoc,
    span_of_le (by omega) (by omega)]
  rfl

/-- If it has none, the mistake is made there. -/
theorem nextToken_quote_of_not_closesAt (hsize : s.size ≤ maxOffset)
    (h : s.remainder? = some ('"' :: body)) (hopen : ∀ offset, ¬ ClosesAt body offset) :
    (s.answer table .nextToken).1 = .error ⟨.unterminatedString, ⟨s.pos, s.file⟩⟩ := by
  have hread : read? body = none := Option.map_eq_none_iff.mp (decode?_eq_none_iff.mpr hopen)
  have hcut : Piece.cut table ('"' :: body) = .found (.mistake .unterminatedString) := by
    rw [Piece.cut_quote, Piece.ofString, hread]
  have hsum := pos_add_width h
  unfold answer
  rw [nextToken?_eq hsize h, Scan.of_eq_of_found hcut, settle_of_mistake rfl]
  dsimp only [Session.found, Scan.lead_nil, Text.width_nil]
  rw [Nat.add_zero, positionAt_of_le (by omega)]
  rfl

/-- **Where strings end, in every run.** A body is decoded just up to the first quote in it that is
not escaped, and not at all if there is none. So whatever calls are made, jumps among them, each
string that is returned reaches from a quote to the first quote behind it that is not escaped,
where the backslashes are counted from the opening quote on. And whenever the cursor is at a quote,
the next token is a string that reaches so far, or else the mistake is made there that it is not
closed. -/
theorem strings_end_at_first_quote (source : String) (file? : Option String)
    (hsize : Text.width source.toList ≤ maxOffset) (calls : List Call) :
    (∀ body n, (∃ value, decode? body = some (value, n)) ↔
        ∃ offset, EndsAt body offset ∧ n = offset + 1)
      ∧ (∀ body, decode? body = none ↔ ∀ offset, ¬ ClosesAt body offset)
      ∧ (∀ token ∈ (start source file?).returnedIn table calls, token.kind = .string →
        ∃ front body offset, source.toList = front ++ '"' :: body ∧ EndsAt body offset
          ∧ token.span =
            ⟨⟨Text.width front, file?.getD unnamed⟩,
              ⟨Text.width front + 1 + offset + 1, file?.getD unnamed⟩⟩)
      ∧ let s := (start source file?).after table calls
        ∀ body, s.remainder? = some ('"' :: body) →
          (∀ offset, EndsAt body offset → ∃ value,
            (s.answer table .nextToken).1 =
              .token ⟨.string, value,
                ⟨⟨s.pos, file?.getD unnamed⟩, ⟨s.pos + 1 + offset + 1, file?.getD unnamed⟩⟩⟩)
          ∧ ((∀ offset, ¬ ClosesAt body offset) →
            (s.answer table .nextToken).1 =
              .error ⟨.unterminatedString, ⟨s.pos, file?.getD unnamed⟩⟩) := by
  have hopen : (start source file?).size ≤ maxOffset := hsize
  obtain ⟨-, hfile⟩ := after_source table (start source file?) calls
  refine ⟨?_, ?_, ?_, ?_⟩
  · intro body n
    exact exists_decode?_iff
  · intro body
    exact decode?_eq_none_iff
  · intro token hmem hkind
    exact string_of_mem_returnedIn hopen hmem hkind
  · intro s body hplace
    have hsize' : s.size ≤ maxOffset := (after_size table _ calls).trans_le hopen
    have hname : s.file = file?.getD unnamed := hfile
    constructor
    · intro offset hends
      obtain ⟨value, hanswer⟩ := nextToken_quote_of_endsAt hsize' hplace hends
      rw [hname] at hanswer
      exact ⟨value, hanswer⟩
    · intro hnone
      have hanswer := nextToken_quote_of_not_closesAt hsize' hplace hnone
      rwa [hname] at hanswer

/-- An escaped quote and a pair of backslashes in a string, and behind it a string that is not
closed, because its only quote is escaped. -/
theorem strings_end_at_first_quote_escapes :
    Text.width "\"é\\\"\\\\\"\"\\\"".toList ≤ maxOffset
      ∧ ((start "\"é\\\"\\\\\"\"\\\"" none).returnedIn table [.next]).map
          (fun token => (token.kind, token.span.start.offset, token.span.stop.offset)) =
        [(.string, 0, 8)]
      ∧ (∀ token ∈ (start "\"é\\\"\\\\\"\"\\\"" none).returnedIn table [.next],
        ∃ front body offset, "\"é\\\"\\\\\"\"\\\"".toList = front ++ '"' :: body
          ∧ EndsAt body offset ∧ token.span =
            ⟨⟨Text.width front, "shell"⟩, ⟨Text.width front + 1 + offset + 1, "shell"⟩⟩)
      ∧ (((start "\"é\\\"\\\\\"\"\\\"" none).after table [.next]).answer table .nextToken).1 =
        .error ⟨.unterminatedString, ⟨8, "shell"⟩⟩ := by
  have hsize : Text.width "\"é\\\"\\\\\"\"\\\"".toList ≤ maxOffset := by decide
  have hstrings : ∀ token ∈ (start "\"é\\\"\\\\\"\"\\\"" none).returnedIn table [.next],
      token.kind = .string := by decide +kernel
  have hplace : ((start "\"é\\\"\\\\\"\"\\\"" none).after table [.next]).remainder? =
      some ('"' :: ['\\', '"']) := by decide +kernel
  have hpos : ((start "\"é\\\"\\\\\"\"\\\"" none).after table [.next]).pos = 8 := by
    decide +kernel
  obtain ⟨-, hnone, htokens, hquote⟩ := strings_end_at_first_quote _ none hsize [.next]
  have herror := (hquote _ hplace).2 ((hnone _).mp (by decide +kernel))
  rw [hpos] at herror
  refine ⟨hsize, by decide +kernel, ?_, herror⟩
  intro token hmem
  exact htokens token hmem (hstrings token hmem)

end Session

end ScriptFront
