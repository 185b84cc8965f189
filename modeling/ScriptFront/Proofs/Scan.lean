import ScriptFront.Lexeme.Scan

/-!
# What a scan goes through

A scan skips some lexemes and comes to a finding. `Reads` says where that finding is made: there
is a text `behind` the skipped lexemes, and cutting a piece off that text gives the finding at
once. Everything that is true of a scan follows from this one fact about `Piece.cut`, so the
recursion of `Scan.of` is opened here and nowhere else.

The fact that matters most is that a scan which starts at `behind` skips nothing and finds the
same again. This is why a reader that stays where it made a mistake makes the same one again.

All of it holds for any list of rules.
-/

namespace ScriptFront

variable {rules : List Rule}

/-! ## Pieces -/

namespace Piece

/-- No rule makes the end of the text of a lexeme, nor a token that says so. -/
theorem ofLexeme_ne_eof (rule : Rule) (lexeme rest : List Char) :
    ofLexeme rule lexeme rest ≠ found .eof
      ∧ ∀ value front back, ofLexeme rule lexeme rest ≠ found (.token .eof value front back) := by
  cases rule with
  | word =>
      simp only [ofLexeme, ofWord]
      split <;> simp
  | number =>
      simp only [ofLexeme, ofNumber]
      split <;> simp
  | quote =>
      simp only [ofLexeme, ofString]
      split <;> simp
  | separators => simp [ofLexeme]
  | comment => simp [ofLexeme]
  | punct mark => simp [ofLexeme]

/-- The end is found at the end, and only there. -/
theorem cut_eq_eof_iff {cs : List Char} : cut rules cs = found .eof ↔ cs = [] := by
  constructor
  · intro h
    cases cs with
    | nil => rfl
    | cons c cs =>
        rw [cut] at h
        split at h
        · simp at h
        · exact absurd h (ofLexeme_ne_eof _ _ _).1
  · intro h
    subst h
    rfl

/-- A token that is cut off is not the one for the end. -/
theorem kind_ne_eof_of_cut {cs lexeme rest : List Char} {kind : Kind} {value : String}
    (h : cut rules cs = found (.token kind value lexeme rest)) : kind ≠ .eof := by
  intro hkind
  subst hkind
  cases cs with
  | nil => simp [cut] at h
  | cons c cs =>
      rw [cut] at h
      split at h
      · simp at h
      · exact (ofLexeme_ne_eof _ _ _).2 _ _ _ h

/-- A token is the start of the text it is cut off, and it is not empty. -/
theorem append_of_cut_token {cs lexeme rest : List Char} {kind : Kind} {value : String}
    (h : cut rules cs = found (.token kind value lexeme rest)) :
    lexeme ++ rest = cs ∧ lexeme ≠ [] :=
  append_of_parts?_cut (by rw [h]; rfl)

/-- So is a lexeme that is skipped. -/
theorem append_of_cut_skip {cs lexeme rest : List Char}
    (h : cut rules cs = skip lexeme rest) : lexeme ++ rest = cs ∧ lexeme ≠ [] :=
  append_of_parts?_cut (by rw [h]; rfl)

end Piece

/-! ## Scans -/

namespace Scan

/-- The text in front of the finding. -/
def lead (scan : Scan) : List Char := scan.skipped.flatten

@[simp] theorem lead_nil (finding : Finding) : lead ⟨[], finding⟩ = [] := rfl

@[simp] theorem lead_after (lexeme : List Char) (scan : Scan) :
    (scan.after lexeme).lead = lexeme ++ scan.lead := rfl

@[simp] theorem finding_after (lexeme : List Char) (scan : Scan) :
    (scan.after lexeme).finding = scan.finding := rfl

/-- A text is left just if a token was found in front of it. -/
theorem rest?_eq_some_iff {scan : Scan} {rest : List Char} :
    scan.rest? = some rest ↔
      ∃ kind value lexeme, scan.finding = .token kind value lexeme rest := by
  unfold rest?
  cases scan.finding with
  | eof => simp
  | mistake cause => simp
  | token kind value lexeme back => simp

/-- And none is left at the end, or before a mistake. -/
theorem rest?_eq_none_iff {scan : Scan} :
    scan.rest? = none ↔ scan.finding = .eof ∨ ∃ cause, scan.finding = .mistake cause := by
  unfold rest?
  cases scan.finding with
  | eof => simp
  | mistake cause => simp
  | token kind value lexeme back => simp

/-- A scan that can skip something goes on behind it. -/
theorem of_eq_of_skip {cs lexeme rest : List Char} (h : Piece.cut rules cs = .skip lexeme rest) :
    of rules cs = (of rules rest).after lexeme := by
  rw [of]
  split
  · rename_i l r hcut
    rw [h] at hcut
    injection hcut with hl hr
    rw [hl, hr]
  · rename_i finding hcut
    rw [h] at hcut
    exact absurd hcut (by simp)

/-- A scan that finds something at once skips nothing. -/
theorem of_eq_of_found {cs : List Char} {finding : Finding}
    (h : Piece.cut rules cs = .found finding) : of rules cs = ⟨[], finding⟩ := by
  rw [of]
  split
  · rename_i l r hcut
    rw [h] at hcut
    exact absurd hcut (by simp)
  · rename_i f hcut
    rw [h] at hcut
    injection hcut with hf
    rw [hf]

/-- What a scan of a text has gone through when it comes to the text `behind`. -/
structure Reads (rules : List Rule) (cs : List Char) (scan : Scan) (behind : List Char) :
    Prop where
  /-- The skipped lexemes and the text behind them make up the text. -/
  append : scan.lead ++ behind = cs
  /-- The finding is made right there. -/
  cut : Piece.cut rules behind = .found scan.finding
  /-- Nothing that is skipped is empty. -/
  nonempty : ∀ lexeme ∈ scan.skipped, lexeme ≠ []

/-- **Every scan comes to its finding somewhere in the text.** -/
theorem of_reads (rules : List Rule) (cs : List Char) :
    ∃ behind, Reads rules cs (of rules cs) behind := by
  fun_induction of rules cs with
  | case1 cs lexeme rest hcut ih =>
      obtain ⟨behind, hreads⟩ := ih
      obtain ⟨happend, hne⟩ := Piece.append_of_cut_skip hcut
      refine ⟨behind, ?_, hreads.cut, ?_⟩
      · rw [lead_after, List.append_assoc, hreads.append, happend]
      · intro l hl
        rcases List.mem_cons.mp hl with rfl | hl
        · exact hne
        · exact hreads.nonempty l hl
  | case2 cs finding hcut => exact ⟨cs, rfl, hcut, by simp⟩

/-- **Induction token by token.** What holds of every text without a token, and of a text if it
holds of what is behind its first token, holds of every text. -/
@[elab_as_elim]
theorem token_induction (rules : List Rule) {P : List Char → Prop}
    (last : ∀ cs, (of rules cs).rest? = none → P cs)
    (token : ∀ cs rest, (of rules cs).rest? = some rest → P rest → P cs) (cs : List Char) :
    P cs := by
  cases hrest : (of rules cs).rest? with
  | none => exact last cs hrest
  | some rest => exact token cs rest hrest (token_induction rules last token rest)
termination_by cs.length
decreasing_by exact rest?_length_lt hrest

/-- The text that is left when the finding has been taken: what is behind a token, and otherwise
the place of the finding itself. -/
def left (scan : Scan) (behind : List Char) : List Char := scan.rest?.getD behind

namespace Reads

variable {cs behind : List Char} {scan : Scan}

/-- A scan that starts where a finding was made finds the same, and skips nothing. -/
theorem rescan (h : Reads rules cs scan behind) : of rules behind = ⟨[], scan.finding⟩ :=
  of_eq_of_found h.cut

/-- The end is found where nothing is left. -/
theorem eof_iff (h : Reads rules cs scan behind) : scan.finding = .eof ↔ behind = [] := by
  constructor
  · intro hf
    exact Piece.cut_eq_eof_iff.mp (by rw [h.cut, hf])
  · intro hnil
    have hcut := h.cut
    rw [Piece.cut_eq_eof_iff.mpr hnil] at hcut
    injection hcut with hf
    exact hf.symm

/-- A token is the start of the text behind the skipped lexemes. -/
theorem token_append (h : Reads rules cs scan behind) {kind : Kind} {value : String}
    {lexeme rest : List Char} (hf : scan.finding = .token kind value lexeme rest) :
    behind = lexeme ++ rest ∧ lexeme ≠ [] ∧ kind ≠ .eof := by
  have hcut := h.cut
  rw [hf] at hcut
  obtain ⟨happend, hne⟩ := Piece.append_of_cut_token hcut
  exact ⟨happend.symm, hne, Piece.kind_ne_eof_of_cut hcut⟩

end Reads

end Scan

end ScriptFront
