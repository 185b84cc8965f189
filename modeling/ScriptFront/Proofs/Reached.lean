import ScriptFront.Proofs.Agreement
import ScriptFront.Proofs.Skipped

/-!
# Places reached piece by piece

A cursor that is told to jump may come to stand in the middle of a word, and what is read from there
says nothing of the text in front of it. In a run without jumps that cannot happen. The session goes
through the source from its beginning, piece by piece, and every place at which it stands is one
that pieces lead to (`Reached`).

A scan takes such a place to another one (`Reached.scan`), so a step keeps the session at such
places and with it a whole run (`Session.kept_arrived`). Each token of the run was cut off at one of
them (`Session.reached_of_mem_returnedIn`). To know what can stand in front of a token it is then
enough to look at one piece and at what may follow it.
-/

namespace ScriptFront

variable {rules : List Rule} {text front back : List Char}

/-- The places of a text that are come to from its beginning by taking off one piece after
another. -/
inductive Reached (rules : List Rule) (text : List Char) : List Char → List Char → Prop where
  | start : Reached rules text [] text
  | piece {front lexeme rest : List Char} : Reached rules text front (lexeme ++ rest) →
      (Piece.cut rules (lexeme ++ rest)).parts? = some (lexeme, rest) →
      Reached rules text (front ++ lexeme) rest

namespace Reached

/-- They are places of the text. -/
theorem append_eq (h : Reached rules text front back) : text = front ++ back := by
  induction h with
  | start => rfl
  | piece _ _ ih => rw [ih, List.append_assoc]

/-- **A scan goes from piece to piece**, up to its finding. -/
theorem scan {behind : List Char} (h : Reached rules text front back)
    (hreads : Scan.Reads rules back (Scan.of rules back) behind) :
    Reached rules text (front ++ (Scan.of rules back).lead) behind := by
  fun_induction Scan.of rules back generalizing front with
  | case1 cs lexeme rest hcut ih =>
      have hcs := (Piece.append_of_cut_skip hcut).1
      subst hcs
      have hparts : (Piece.cut rules (lexeme ++ rest)).parts? = some (lexeme, rest) := by
        rw [hcut]
        rfl
      rw [Scan.lead_after, ← List.append_assoc]
      exact ih (h.piece hparts) (hreads.of_after hcut)
  | case2 cs finding hcut =>
      have hbehind : behind = cs := hreads.append
      rw [hbehind, Scan.lead_nil, List.append_nil]
      exact h

/-- A token that it finds is one more piece. -/
theorem token {kind : Kind} {value : String} {lexeme rest : List Char}
    (h : Reached rules text front back)
    (hf : (Scan.of rules back).finding = .token kind value lexeme rest) :
    Reached rules text (front ++ (Scan.of rules back).lead) (lexeme ++ rest)
      ∧ Piece.cut rules (lexeme ++ rest) = .found (.token kind value lexeme rest)
      ∧ Reached rules text (front ++ ((Scan.of rules back).lead ++ lexeme)) rest := by
  obtain ⟨behind, hreads⟩ := Scan.of_reads rules back
  have hscan := h.scan hreads
  have hcut := hreads.cut
  rw [hf] at hcut
  rw [(hreads.token_append hf).1] at hscan hcut
  refine ⟨hscan, hcut, ?_⟩
  rw [← List.append_assoc]
  exact hscan.piece (by rw [hcut]; rfl)

end Reached

namespace Session

variable {s : Session} {token : Token}

/-- The cursor is at a place that is reached piece by piece, with a text behind it. -/
def Arrived (rules : List Rule) (s : Session) (back : List Char) : Prop :=
  ∃ front, Reached rules s.text front back ∧ Text.width front = s.pos

theorem arrived_start (rules : List Rule) (source : String) (file? : Option String) :
    (start source file?).Arrived rules source.toList := ⟨[], .start, rfl⟩

/-- **To stand at such a place is kept.** -/
theorem kept_arrived (rules : List Rule) : Kept rules (Arrived rules) := by
  refine ⟨?_, ?_, fun h => h⟩
  · rintro s back ⟨front, hreached, hwidth⟩
    exact remainder?_eq_some_iff.mpr ⟨front, hreached.append_eq, hwidth⟩
  · rintro s back behind ⟨front, hreached, hwidth⟩ hreads
    have hscan := hreached.scan hreads
    unfold Arrived Scan.left Scan.rest?
    rw [settle_text]
    cases hf : (Scan.of rules back).finding with
    | eof =>
        refine ⟨_, hscan, ?_⟩
        rw [settle_of_eof hf, Text.width_append, hwidth]
        rfl
    | mistake cause =>
        refine ⟨_, hscan, ?_⟩
        rw [settle_of_mistake hf, Text.width_append, hwidth]
        rfl
    | token kind value lexeme rest =>
        refine ⟨_, (hreached.token hf).2.2, ?_⟩
        rw [settle_of_token hf, Text.width_append, Text.width_append, hwidth, ← Nat.add_assoc]
        rfl

/-- **What is read from a place that is reached is cut off at such places**, and stands where its
span says. -/
theorem reached_of_ok_mem (hreached : Reached rules text front back)
    (hwidth : Text.width front = s.pos) (h : .ok token ∈ (s.sweepText rules back).results)
    (hkind : token.kind ≠ .eof) :
    ∃ ahead lexeme rest, Reached rules text ahead (lexeme ++ rest)
      ∧ Piece.cut rules (lexeme ++ rest) = .found (.token token.kind token.value lexeme rest)
      ∧ token.span = s.span (Text.width ahead) (Text.width ahead + Text.width lexeme) := by
  induction back using Scan.finding_induction rules generalizing s front with
  | eof cs hf =>
      rw [results_of_eof hf, List.mem_singleton] at h
      injection h with h
      rw [h] at hkind
      exact absurd rfl hkind
  | mistake cs cause hf =>
      rw [results_of_mistake hf] at h
      exact absurd h (by simp)
  | token cs kind value lexeme rest hf ih =>
      obtain ⟨hplace, hcut, hbehind⟩ := hreached.token hf
      rw [results_of_token hf] at h
      rcases List.mem_cons.mp h with hfirst | hlater
      · injection hfirst with hfirst
        subst hfirst
        refine ⟨_, lexeme, rest, hplace, hcut, ?_⟩
        rw [Text.width_append, hwidth]
        rfl
      · have hfront : Text.width (front ++ ((Scan.of rules cs).lead ++ lexeme)) =
            (s.advance (Text.width (Scan.of rules cs).lead + Text.width lexeme)).pos := by
          rw [Text.width_append, Text.width_append, hwidth]
          rfl
        obtain ⟨ahead, lexeme', rest', hplace, hcut, hspan⟩ := ih hbehind hfront hlater
        rw [span_advance] at hspan
        exact ⟨ahead, lexeme', rest', hplace, hcut, hspan⟩

/-- **In a run without jumps every token was cut off at a place that is reached**, unless it is the
one for the end. -/
theorem reached_of_mem_returnedIn (hsize : s.size ≤ maxOffset) (h : s.Arrived rules back)
    {calls : List Call} (hjumps : ∀ call ∈ calls, call.jumps = false)
    (hmem : token ∈ s.returnedIn rules calls) (hkind : token.kind ≠ .eof) :
    ∃ ahead lexeme rest, Reached rules s.text ahead (lexeme ++ rest)
      ∧ Piece.cut rules (lexeme ++ rest) = .found (.token token.kind token.value lexeme rest)
      ∧ token.span = ⟨⟨Text.width ahead, s.file⟩,
          ⟨Text.width ahead + Text.width lexeme, s.file⟩⟩ := by
  obtain ⟨before, call, later, rfl, hreturned⟩ := exists_of_mem_returnedIn hmem
  obtain ⟨rest, harrived⟩ :=
    (kept_arrived rules).after hsize h (fun c hc => hjumps c (List.mem_append_left _ hc))
  obtain ⟨cs, hunread, hresult⟩ := mem_results_of_returned hreturned
  rw [unread?_eq ((kept_arrived rules).place harrived)] at hunread
  injection hunread with hunread
  subst hunread
  obtain ⟨front, hreached, hwidth⟩ := harrived
  obtain ⟨ahead, lexeme, behind, hplace, hcut, hspan⟩ :=
    reached_of_ok_mem hreached hwidth hresult hkind
  obtain ⟨htext, hfile⟩ := after_source rules s before
  rw [htext] at hplace
  have hlength := congrArg Text.width hplace.append_eq
  simp only [Text.width_append] at hlength
  have hopen : Text.width s.text ≤ maxOffset := hsize
  refine ⟨ahead, lexeme, behind, hplace, hcut, ?_⟩
  rw [hspan, span_of_le (Nat.le_add_right _ _) (by omega), hfile]

end Session

end ScriptFront
