import ScriptFront.Proofs.Lexemes
import ScriptFront.Proofs.Places
import ScriptFront.Proofs.Printing
import ScriptFront.Proofs.Results

/-!
# Tokens and what stands in the source for them

A token has a kind, a value and a span, and the three could disagree: the span is counted, the value
is copied or decoded, and the kind is looked up. They do not. The text of the span is what can be
written for a token of that kind and value (`Written`), and since no text can be written for two
tokens (`Written.unique`), it determines both.

Whatever calls a token has been returned by, it is one of the results of reading on from where the
call was made (`mem_results_of_returned`), and each of these results was cut off its place in the
text (`exists_of_ok_mem`). What was cut off as a token is something that can be written for it
(`Piece.written_of_cut`), because its rule describes it.
-/

namespace ScriptFront

open Rule

variable {rules : List Rule}

/-! ## What is cut off was written -/

namespace Piece

/-- **What a rule makes a token of can be written for that token.** -/
theorem written_of_ofLexeme {rule : Rule} {first rest lexeme back : List Char} {kind : Kind}
    {value : String} (hfirst : Describes rule first)
    (h : ofLexeme rule first rest = found (.token kind value lexeme back)) :
    Written kind value lexeme := by
  cases hfirst with
  | @word c cs hc hcs =>
      simp only [ofLexeme, ofWord] at h
      split at h <;> simp only [found.injEq, Finding.token.injEq] at h <;>
        obtain ⟨rfl, rfl, rfl, -⟩ := h
      · rename_i word hword
        have hspelling := Keyword.ofSpelling?_eq_some_iff.mp hword
        rw [← String.toList_ofList (l := c :: cs), hspelling]
        exact .spelling rfl
      · rename_i hnone
        refine .identifier hc hcs fun word hword => ?_
        rw [Keyword.ofSpelling?_eq_some_iff.mpr hword] at hnone
        exact absurd hnone (by simp)
  | number hdecimal hle =>
      simp only [ofLexeme, ofNumber] at h
      split at h
      · simp only [found.injEq, Finding.token.injEq] at h
        obtain ⟨rfl, rfl, rfl, -⟩ := h
        exact .number hdecimal hle
      · exact absurd h (by simp)
  | quote =>
      simp only [ofLexeme, ofString] at h
      split at h
      · exact absurd h (by simp)
      · rename_i meaning n hread
        simp only [found.injEq, Finding.token.injEq] at h
        obtain ⟨rfl, rfl, rfl, -⟩ := h
        -- the body is closed by its last character, so it is read without what stands behind it
        have hlength := List.length_take_of_le (StringBody.read?_le_length hread)
        have happend : StringBody.read? (rest.take n ++ rest.drop n) =
            some (meaning, (rest.take n).length) := by
          rw [List.take_append_drop, hlength]
          exact hread
        exact .string (StringBody.read?_of_append happend)
  | punct mark =>
      simp only [ofLexeme, found.injEq, Finding.token.injEq] at h
      obtain ⟨rfl, rfl, rfl, -⟩ := h
      exact .spelling rfl
  | separators _ _ => exact absurd h (by simp [ofLexeme])
  | comment _ => exact absurd h (by simp [ofLexeme])

/-- So can what is cut off a text as a token. -/
theorem written_of_cut {cs lexeme rest : List Char} {kind : Kind} {value : String}
    (h : cut rules cs = found (.token kind value lexeme rest)) : Written kind value lexeme := by
  cases cs with
  | nil => exact absurd h (by simp [cut])
  | cons c cs =>
      rw [cut] at h
      cases hlongest : longest rules (c :: cs) with
      | none =>
          rw [hlongest] at h
          exact absurd h (by simp)
      | some best =>
          obtain ⟨rule, n⟩ := best
          obtain ⟨-, rfl, hpos⟩ := longest_mem hlongest
          rw [hlongest] at h
          exact written_of_ofLexeme (describes_take_reach (Nat.ne_of_gt hpos)) h

end Piece

/-- **No text can be written for two tokens.** -/
theorem Written.unique {kind other : Kind} {value text : String} {lexeme : List Char}
    (h : Written kind value lexeme) (h' : Written other text lexeme) :
    kind = other ∧ value = text := by
  -- in front of a separator it is read as either of them
  have hblank : isSeparator ' ' = true := by decide
  have hcut := (Piece.cut_written h hblank []).symm.trans (Piece.cut_written h' hblank [])
  simp only [Piece.found.injEq, Finding.token.injEq] at hcut
  exact ⟨hcut.1, hcut.2.1⟩

/-- What is written for a token is not empty. -/
theorem Written.ne_nil {kind : Kind} {value : String} {lexeme : List Char}
    (h : Written kind value lexeme) : lexeme ≠ [] :=
  (Piece.append_of_cut_token (Piece.cut_written h (by decide : isSeparator ' ' = true) [])).2

/-! ## Where tokens stand -/

namespace Session

variable {s : Session} {cs : List Char} {token : Token}

/-- **A token that is read was cut off the text where its span is**, or it is the one for the end
of the text. -/
theorem exists_of_ok_mem (h : .ok token ∈ (s.sweepText rules cs).results) :
    ∃ front lexeme rest, cs = front ++ (lexeme ++ rest)
      ∧ token.span =
        s.span (s.pos + Text.width front) (s.pos + Text.width front + Text.width lexeme)
      ∧ (Piece.cut rules (lexeme ++ rest) =
            .found (.token token.kind token.value lexeme rest)
          ∨ token.kind = .eof ∧ token.value = "" ∧ lexeme = [] ∧ rest = []) := by
  induction cs using Scan.finding_induction rules generalizing s with
  | eof cs hf =>
      obtain ⟨behind, hreads⟩ := Scan.of_reads rules cs
      have happend := hreads.append
      rw [hreads.eof_iff.mp hf] at happend
      rw [results_of_eof hf, List.mem_singleton] at h
      injection h with h
      subst h
      exact ⟨(Scan.of rules cs).lead, [], [], happend.symm, rfl, Or.inr ⟨rfl, rfl, rfl, rfl⟩⟩
  | mistake cs cause hf =>
      rw [results_of_mistake hf] at h
      exact absurd h (by simp)
  | token cs kind value lexeme rest hf ih =>
      have hcs := Scan.lead_append_token hf
      rw [results_of_token hf] at h
      rcases List.mem_cons.mp h with hfirst | hlater
      · injection hfirst with hfirst
        subst hfirst
        obtain ⟨behind, hreads⟩ := Scan.of_reads rules cs
        have hcut := hreads.cut
        rw [hf, (hreads.token_append hf).1] at hcut
        exact ⟨(Scan.of rules cs).lead, lexeme, rest, hcs.symm, rfl, Or.inl hcut⟩
      · -- what comes later is read from behind this token
        obtain ⟨front, lexeme', rest', hrest, hspan, hcut⟩ := ih hlater
        refine ⟨(Scan.of rules cs).lead ++ (lexeme ++ front), lexeme', rest', ?_, ?_, hcut⟩
        · rw [List.append_assoc, List.append_assoc, ← hrest]
          exact hcs.symm
        · rw [hspan, span_advance]
          simp only [advance, Text.width_append, Nat.add_assoc]

/-- What a step returns is the first result of reading on. -/
theorem settle_mem_results (rules : List Rule) (s : Session) (cs : List Char) :
    (s.settle (Scan.of rules cs)).1 ∈ (s.sweepText rules cs).results := by
  cases hrest : (Scan.of rules cs).rest? with
  | none =>
      rw [(sweepText_of_rest?_none hrest).1]
      exact List.mem_cons_self
  | some rest =>
      rw [(sweepText_of_rest?_some hrest).1]
      exact List.mem_cons_self

/-- The tokens that a sweep returns are among its results. -/
theorem Sweep.mem_results {sweep : Sweep} {tokens : List Token} (h : sweep.result = .ok tokens)
    (hmem : token ∈ tokens) : .ok token ∈ sweep.results := by
  unfold result at h
  split at h
  · injection h with h
    subst h
    exact List.mem_append_left _ (List.mem_map_of_mem hmem)
  · exact absurd h (by simp)

/-- So is the mistake that it ends with. -/
theorem Sweep.error_mem_results {sweep : Sweep} {error : Error}
    (h : sweep.result = .error error) : .error error ∈ sweep.results := by
  unfold result at h
  split at h
  · exact absurd h (by simp)
  · rename_i other hother
    injection h with h
    subst h
    unfold results
    rw [hother]
    exact List.mem_append_right _ List.mem_cons_self

end Session

/-- The tokens in a reply. -/
def Reply.returned : Reply → List Token
  | token next => [next]
  | tokens all => all
  | _ => []

/-- A reply to a call for one token has the token of its result. -/
theorem Reply.mem_returned_ofResult {token : Token} {result : Except Error Token}
    (h : token ∈ (ofResult result).returned) : result = .ok token := by
  cases result with
  | ok next => rw [List.mem_singleton.mp h]
  | error error => exact absurd h (by simp [ofResult, returned])

/-- And one to a call for all tokens has those of its results. -/
theorem Reply.mem_returned_ofResults {token : Token} {results : Except Error (List Token)}
    (h : token ∈ (ofResults results).returned) : ∃ tokens, results = .ok tokens ∧ token ∈ tokens := by
  cases results with
  | ok tokens => exact ⟨tokens, rfl, h⟩
  | error error => exact absurd h (by simp [ofResults, returned])

namespace Session

variable {s : Session} {token : Token} {call : Call}

/-- A token of the next step is a result of reading on. -/
theorem mem_results_of_nextToken? {t : Session} (h : s.nextToken? rules = some (.ok token, t)) :
    ∃ cs, s.unread? = some cs ∧ .ok token ∈ (s.sweepText rules cs).results := by
  unfold nextToken? at h
  split at h
  · exact absurd h (by simp)
  · obtain ⟨cs, hcs, hsettle⟩ := Option.map_eq_some_iff.mp h
    have hmem := settle_mem_results rules s cs
    rw [hsettle] at hmem
    exact ⟨cs, hcs, hmem⟩

/-- So are the tokens of reading to the end, unless it has been done before. -/
theorem mem_results_of_collect? {t : Session} {tokens : List Token}
    (h : s.collect? rules = some (.ok tokens, t)) (hmem : token ∈ tokens) :
    ∃ cs, s.unread? = some cs ∧ .ok token ∈ (s.sweepText rules cs).results := by
  unfold collect? sweep? at h
  obtain ⟨sweep, hsweep, heq⟩ := Option.map_eq_some_iff.mp h
  injection heq with hresult _
  have hresults := Sweep.mem_results hresult hmem
  split at hsweep
  · injection hsweep with hsweep
    subst hsweep
    exact absurd hresults (by simp [Sweep.results])
  · split at hsweep
    · injection hsweep with hsweep
      subst hsweep
      exact absurd hresults (by simp [Sweep.results])
    · obtain ⟨cs, hcs, rfl⟩ := Option.map_eq_some_iff.mp hsweep
      exact ⟨cs, hcs, hresults⟩

/-- **Whatever call returns a token, it is a result of reading on from there.** -/
theorem mem_results_of_returned (h : token ∈ (s.answer rules call).1.returned) :
    ∃ cs, s.unread? = some cs ∧ .ok token ∈ (s.sweepText rules cs).results := by
  unfold answer at h
  cases call with
  | nextToken =>
      cases hnext : s.nextToken? rules with
      | none =>
          rw [hnext] at h
          exact absurd h (by simp [Reply.returned])
      | some step =>
          rw [hnext] at h
          exact mem_results_of_nextToken? (t := step.2)
            (by rw [hnext, ← Reply.mem_returned_ofResult h])
  | next =>
      cases hnext : s.next? rules with
      | none =>
          rw [hnext] at h
          exact absurd h (by simp [Reply.returned])
      | some step =>
          obtain ⟨result?, t⟩ := step
          rw [hnext] at h
          cases result? with
          | none => exact absurd h (by simp [Reply.returned])
          | some result =>
              have hresult := Reply.mem_returned_ofResult h
              subst hresult
              unfold next? at hnext
              split at hnext
              · exact absurd hnext (by simp)
              · obtain ⟨step, hstep, heq⟩ := Option.map_eq_some_iff.mp hnext
                injection heq with hsome _
                injection hsome with hok
                exact mem_results_of_nextToken? (t := step.2) (by rw [hstep, ← hok])
  | collect =>
      cases hcollect : s.collect? rules with
      | none =>
          rw [hcollect] at h
          exact absurd h (by simp [Reply.returned])
      | some step =>
          rw [hcollect] at h
          obtain ⟨tokens, htokens, hmem⟩ := Reply.mem_returned_ofResults h
          exact mem_results_of_collect? (t := step.2) (by rw [hcollect, ← htokens]) hmem
  | char =>
      cases hplace : s.remainder? <;> rw [hplace] at h <;>
        exact absurd h (by simp [Reply.returned])
  | remainder =>
      cases hplace : s.remainder? <;> rw [hplace] at h <;>
        exact absurd h (by simp [Reply.returned])
  | _ => exact absurd h (by simp [Reply.returned])

/-- **A token that is returned was cut off the source where its span is**, unless it is the one for
the end. -/
theorem marks_of_returned (hsize : s.size ≤ maxOffset)
    (h : token ∈ (s.answer rules call).1.returned) (hkind : token.kind ≠ .eof) :
    ∃ lexeme rest, token.span.Marks s.file s.text lexeme rest
      ∧ Piece.cut rules (lexeme ++ rest) =
        .found (.token token.kind token.value lexeme rest) := by
  obtain ⟨cs, hunread, hmem⟩ := mem_results_of_returned h
  obtain ⟨front, lexeme, rest, rfl, hspan, hcut | ⟨heof, -⟩⟩ := exists_of_ok_mem hmem
  · have hne := (Piece.append_of_cut_token hcut).2
    have hplace := remainder?_of_unread? hunread (by simp [hne])
    have hsum := pos_add_width hplace
    simp only [Text.width_append] at hsum
    refine ⟨lexeme, rest, ?_, hcut⟩
    rw [hspan, span_of_le (Nat.le_add_right _ _) (by omega)]
    exact marks_ahead hplace
  · exact absurd heof hkind

/-- From a place, the one for the end is empty and stands at the end. -/
theorem eof_of_returned {back : List Char} (hsize : s.size ≤ maxOffset)
    (hplace : s.remainder? = some back) (h : token ∈ (s.answer rules call).1.returned)
    (hkind : token.kind = .eof) :
    token.value = "" ∧ token.span = ⟨⟨s.size, s.file⟩, ⟨s.size, s.file⟩⟩ := by
  obtain ⟨cs, hunread, hmem⟩ := mem_results_of_returned h
  rw [unread?_eq hplace] at hunread
  injection hunread with hunread
  subst hunread
  obtain ⟨front, lexeme, rest, rfl, hspan, hcut | ⟨-, hvalue, rfl, rfl⟩⟩ := exists_of_ok_mem hmem
  · exact absurd hkind (Piece.kind_ne_eof_of_cut hcut)
  · have hsum := pos_add_width hplace
    simp only [Text.width_append, Text.width_nil, Nat.add_zero] at hsum hspan
    rw [hsum, span_of_le (Nat.le_refl _) hsize] at hspan
    exact ⟨hvalue, hspan⟩

end Session

/-- What stands in a source for a token: what is written for it, and nothing for the end. -/
def Token.StandsFor (token : Token) (lexeme : List Char) : Prop :=
  Written token.kind token.value lexeme ∨ token.kind = .eof ∧ token.value = "" ∧ lexeme = []

/-- **No text stands for tokens of two kinds or with two values.** -/
theorem Token.StandsFor.unique {a b : Token} {lexeme : List Char} (ha : a.StandsFor lexeme)
    (hb : b.StandsFor lexeme) : a.kind = b.kind ∧ a.value = b.value := by
  rcases ha with ha | ⟨hkind, hvalue, rfl⟩ <;> rcases hb with hb | ⟨hkind', hvalue', hnil⟩
  · exact ha.unique hb
  · exact absurd hnil ha.ne_nil
  · exact absurd rfl hb.ne_nil
  · exact ⟨hkind.trans hkind'.symm, hvalue.trans hvalue'.symm⟩

namespace Session

/-- The tokens that are returned in a run, call by call. -/
def returnedIn (rules : List Rule) (s : Session) (calls : List Call) : List Token :=
  (s.run rules calls).flatMap fun step => step.1.returned

/-- Each of them is returned by one of the calls. -/
theorem exists_of_mem_returnedIn {s : Session} {calls : List Call} {token : Token}
    (h : token ∈ s.returnedIn rules calls) :
    ∃ before call later, calls = before ++ call :: later
      ∧ token ∈ ((s.after rules before).answer rules call).1.returned := by
  obtain ⟨step, hstep, hmem⟩ := List.mem_flatMap.mp h
  obtain ⟨before, call, later, hcalls, rfl⟩ := mem_run_iff.mp hstep
  exact ⟨before, call, later, hcalls, hmem⟩

/-- So each of them was cut off the source where its span is, unless it is one for the end. -/
theorem marks_of_mem_returnedIn {s : Session} (hsize : s.size ≤ maxOffset) {calls : List Call}
    {token : Token} (h : token ∈ s.returnedIn rules calls) (hkind : token.kind ≠ .eof) :
    ∃ lexeme rest, token.span.Marks s.file s.text lexeme rest
      ∧ Piece.cut rules (lexeme ++ rest) =
        .found (.token token.kind token.value lexeme rest) := by
  obtain ⟨before, call, later, rfl, hreturned⟩ := exists_of_mem_returnedIn h
  obtain ⟨htext, hfile⟩ := after_source rules s before
  rw [← after_size rules s before] at hsize
  have hmarks := marks_of_returned hsize hreturned hkind
  rwa [htext, hfile] at hmarks

/-- In a run without jumps one for the end stands at the end. -/
theorem eof_of_mem_returnedIn {s : Session} {back : List Char} (hsize : s.size ≤ maxOffset)
    (hplace : s.remainder? = some back) {calls : List Call}
    (hjumps : ∀ call ∈ calls, call.jumps = false) {token : Token}
    (h : token ∈ s.returnedIn rules calls) (hkind : token.kind = .eof) :
    token.value = "" ∧ token.span = ⟨⟨s.size, s.file⟩, ⟨s.size, s.file⟩⟩ := by
  obtain ⟨before, call, later, rfl, hreturned⟩ := exists_of_mem_returnedIn h
  obtain ⟨rest, hrest, -⟩ := place_after rules hsize hplace
    (fun c hc => hjumps c (List.mem_append_left _ hc))
  obtain ⟨-, hfile⟩ := after_source rules s before
  have hsame := after_size rules s before
  rw [← hsame] at hsize
  have heof := eof_of_returned hsize hrest hreturned hkind
  rwa [hsame, hfile] at heof

/-- The text of its span stands for a token that is returned in a run without jumps. -/
theorem exists_lexeme_of_mem_returnedIn (source : String) (file? : Option String)
    (hsize : Text.width source.toList ≤ maxOffset) {calls : List Call}
    (hjumps : ∀ call ∈ calls, call.jumps = false) {token : Token}
    (hmem : token ∈ (start source file?).returnedIn rules calls) :
    ∃ lexeme, token.span.slice? source.toList = some lexeme ∧ token.StandsFor lexeme
      ∧ (token.kind = .eof →
          token.span = ⟨⟨Text.width source.toList, file?.getD unnamed⟩,
            ⟨Text.width source.toList, file?.getD unnamed⟩⟩) := by
  have hopen : (start source file?).size ≤ maxOffset := hsize
  by_cases hkind : token.kind = .eof
  · obtain ⟨hvalue, hspan⟩ :=
      eof_of_mem_returnedIn hopen (remainder?_start source file?) hjumps hmem hkind
    have hmarks : token.span.Marks (start source file?).file source.toList [] [] :=
      ⟨source.toList, by simp, hspan⟩
    exact ⟨[], hmarks.slice?, Or.inr ⟨hkind, hvalue, rfl⟩, fun _ => hspan⟩
  · obtain ⟨lexeme, back, hmarks, hcut⟩ := marks_of_mem_returnedIn hopen hmem hkind
    exact ⟨lexeme, hmarks.slice?, Or.inl (Piece.written_of_cut hcut), fun h => absurd h hkind⟩

/-- **Kind, value and lexeme agree in every run without jumps.** The span of a token that is
returned has a text, which stands for the token: the only spelling of its kind and then the value is
empty, or its value itself if it is a number or a word that is not reserved, or a quote and a body
that is closed by its last character and means the value, or nothing at the end of the source. So
two tokens that are returned for the same text, of two sources and in any two runs, have the same
kind and value. -/
theorem returned_agrees (source : String) (file? : Option String)
    (hsize : Text.width source.toList ≤ maxOffset) {calls : List Call}
    (hjumps : ∀ call ∈ calls, call.jumps = false) {token : Token}
    (hmem : token ∈ (start source file?).returnedIn table calls) :
    ∃ lexeme, token.span.slice? source.toList = some lexeme ∧ token.StandsFor lexeme
      ∧ (token.kind = .eof →
          token.span = ⟨⟨Text.width source.toList, file?.getD unnamed⟩,
            ⟨Text.width source.toList, file?.getD unnamed⟩⟩)
      ∧ ∀ (other : String) (otherFile? : Option String) (otherCalls : List Call) (twin : Token),
          Text.width other.toList ≤ maxOffset → (∀ call ∈ otherCalls, call.jumps = false) →
          twin ∈ (start other otherFile?).returnedIn table otherCalls →
          twin.span.slice? other.toList = some lexeme →
          twin.kind = token.kind ∧ twin.value = token.value := by
  obtain ⟨lexeme, hslice, hstands, heof⟩ :=
    exists_lexeme_of_mem_returnedIn source file? hsize hjumps hmem
  refine ⟨lexeme, hslice, hstands, heof, ?_⟩
  intro other otherFile? otherCalls twin hother hcalls htwin hsame
  obtain ⟨lexeme', hslice', hstands', -⟩ :=
    exists_lexeme_of_mem_returnedIn other otherFile? hother hcalls htwin
  rw [hsame] at hslice'
  injection hslice' with hlexeme
  subst hlexeme
  exact hstands'.unique hstands

/-- A string with a code escape, returned with all that is left behind a reserved word, and the same
string in another source. -/
theorem returned_agrees_string :
    Text.width "if\"\\x41\"".toList ≤ maxOffset
      ∧ (∀ call ∈ [Call.nextToken, .collect], call.jumps = false)
      ∧ ⟨.string, "A", ⟨⟨2, "shell"⟩, ⟨8, "shell"⟩⟩⟩ ∈
        (start "if\"\\x41\"" none).returnedIn table [.nextToken, .collect]
      ∧ (⟨⟨2, "shell"⟩, ⟨8, "shell"⟩⟩ : Span).slice? "if\"\\x41\"".toList =
        some "\"\\x41\"".toList
      ∧ Token.StandsFor ⟨.string, "A", ⟨⟨2, "shell"⟩, ⟨8, "shell"⟩⟩⟩ "\"\\x41\"".toList
      ∧ ∀ twin ∈ (start "\"\\x41\"" none).returnedIn table [.next],
          twin.kind = .string ∧ twin.value = "A" := by
  have hsize : Text.width "if\"\\x41\"".toList ≤ maxOffset := by decide
  have hjumps : ∀ call ∈ [Call.nextToken, .collect], call.jumps = false := by decide
  have hmem : ⟨.string, "A", ⟨⟨2, "shell"⟩, ⟨8, "shell"⟩⟩⟩ ∈
      (start "if\"\\x41\"" none).returnedIn table [.nextToken, .collect] := by decide +kernel
  have htext : (⟨⟨2, "shell"⟩, ⟨8, "shell"⟩⟩ : Span).slice? "if\"\\x41\"".toList =
      some "\"\\x41\"".toList := by decide
  have htwins : ∀ twin ∈ (start "\"\\x41\"" none).returnedIn table [.next],
      twin.span.slice? "\"\\x41\"".toList = some "\"\\x41\"".toList := by decide +kernel
  obtain ⟨lexeme, hslice, hstands, -, hsame⟩ := returned_agrees _ none hsize hjumps hmem
  rw [htext] at hslice
  injection hslice with hlexeme
  subst hlexeme
  exact ⟨hsize, hjumps, hmem, htext, hstands, fun twin htwin =>
    hsame _ none [.next] twin (by decide) (by decide) htwin (htwins twin htwin)⟩

end Session

end ScriptFront
