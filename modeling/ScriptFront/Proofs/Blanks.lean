import Mathlib.Data.List.TakeWhile
import ScriptFront.Proofs.Longest
import ScriptFront.Proofs.Scan

/-!
# What stands between tokens

A scan skips runs of separators and comments. Which runs those are does not matter to anyone who
only wants to know where the next token begins: a separator in front of a text makes the lead of its
scan longer by one character and changes nothing else (`of_separator`), whether it joins a run or
begins one. So the text that is skipped has two simple descriptions. `Blanks` is a grammar for it,
and `afterBlanks` is what is left when it is taken away, one separator or comment at a time.

The grammar takes the newline behind a comment for a part of it, and `afterBlanks` does not. Proofs
about `afterBlanks` go by `blanks_induction`, whose cases are those of the grammar and two more:
the last line can be a comment, and something can stand there that is no blank.
-/

namespace ScriptFront

open Rule

/-- A text of separators, and of comments with the newline that ends them. -/
inductive Blanks : List Char → Prop where
  | nil : Blanks []
  | separator {c : Char} {cs : List Char} :
      isSeparator c = true → Blanks cs → Blanks (c :: cs)
  | comment {body cs : List Char} :
      '\n' ∉ body → Blanks cs → Blanks ('/' :: '/' :: (body ++ '\n' :: cs))

/-- What is left of a text behind all separators and comments that it begins with. -/
def afterBlanks : List Char → List Char
  | [] => []
  | c :: cs =>
      if isSeparator c then afterBlanks cs
      else if ['/', '/'].isPrefixOf (c :: cs) then afterBlanks (cs.dropWhile (· != '\n'))
      else c :: cs
termination_by cs => cs.length
decreasing_by
  · exact Nat.lt_succ_self _
  · exact Nat.lt_succ_of_le (List.dropWhile_sublist _).length_le

namespace Scan

/-- A scan skips the separators that a text begins with. -/
theorem of_takeWhile (cs : List Char) :
    (of table cs).lead =
        cs.takeWhile isSeparator ++ (of table (cs.dropWhile isSeparator)).lead
      ∧ (of table cs).finding = (of table (cs.dropWhile isSeparator)).finding := by
  cases cs with
  | nil => exact ⟨rfl, rfl⟩
  | cons c cs =>
      by_cases hc : isSeparator c = true
      · rw [of_eq_of_skip (Piece.cut_separators hc), List.takeWhile_cons_of_pos hc,
          List.dropWhile_cons_of_pos hc]
        exact ⟨rfl, rfl⟩
      · rw [List.takeWhile_cons_of_neg hc, List.dropWhile_cons_of_neg hc]
        exact ⟨rfl, rfl⟩

/-- **A separator is skipped and changes nothing else.** -/
theorem of_separator {c : Char} (h : isSeparator c = true) (cs : List Char) :
    (of table (c :: cs)).lead = c :: (of table cs).lead
      ∧ (of table (c :: cs)).finding = (of table cs).finding := by
  obtain ⟨hlead, hfinding⟩ := of_takeWhile cs
  rw [of_eq_of_skip (Piece.cut_separators h), lead_after, finding_after, hlead, hfinding]
  exact ⟨rfl, rfl⟩

/-- So is a comment. -/
theorem of_comment (cs : List Char) :
    (of table ('/' :: '/' :: cs)).lead =
        '/' :: '/' :: (cs.takeWhile (· != '\n') ++ (of table (cs.dropWhile (· != '\n'))).lead)
      ∧ (of table ('/' :: '/' :: cs)).finding =
        (of table (cs.dropWhile (· != '\n'))).finding := by
  rw [of_eq_of_skip Piece.cut_comment]
  exact ⟨rfl, rfl⟩

/-- The end of a text is found at once. -/
theorem of_nil (rules : List Rule) : of rules [] = ⟨[], .eof⟩ :=
  of_eq_of_found (Piece.cut_eq_eof_iff.mpr rfl)

/-- A line is taken up to its newline. -/
theorem takeWhile_line {body : List Char} (h : '\n' ∉ body) (cs : List Char) :
    (body ++ '\n' :: cs).takeWhile (· != '\n') = body
      ∧ (body ++ '\n' :: cs).dropWhile (· != '\n') = '\n' :: cs := by
  have hall : ∀ c ∈ body, (c != '\n') = true := by
    intro c hc
    exact bne_iff_ne.mpr fun heq => h (heq ▸ hc)
  rw [List.takeWhile_append_of_pos hall, List.dropWhile_append_of_pos hall]
  simp

/-- **Blanks in front of a text are skipped and change nothing else.** -/
theorem of_blanks {blank : List Char} (h : Blanks blank) (cs : List Char) :
    (of table (blank ++ cs)).lead = blank ++ (of table cs).lead
      ∧ (of table (blank ++ cs)).finding = (of table cs).finding := by
  induction h with
  | nil => exact ⟨rfl, rfl⟩
  | separator hsep _ ih =>
      obtain ⟨hlead, hfinding⟩ := of_separator hsep (_ ++ cs)
      rw [List.cons_append, hlead, hfinding, ih.1, ih.2]
      exact ⟨rfl, rfl⟩
  | @comment body blank hbody _ ih =>
      -- the comment ends before its newline, which is a separator and skipped as such
      obtain ⟨htake, hdrop⟩ := takeWhile_line hbody (blank ++ cs)
      obtain ⟨hlead, hfinding⟩ := of_comment (body ++ '\n' :: (blank ++ cs))
      obtain ⟨hlead', hfinding'⟩ := of_separator (by decide : isSeparator '\n' = true) (blank ++ cs)
      rw [htake, hdrop, hlead', ih.1] at hlead
      rw [hdrop, hfinding', ih.2] at hfinding
      simp only [List.cons_append, List.append_assoc] at hlead hfinding ⊢
      exact ⟨hlead, hfinding⟩

/-- A comment is skipped with its newline, which is a separator. -/
theorem lead_comment {body : List Char} (h : '\n' ∉ body) (cs : List Char) :
    (of table ('/' :: '/' :: (body ++ '\n' :: cs))).lead =
      '/' :: '/' :: (body ++ '\n' :: (of table cs).lead) := by
  have hlead := (of_blanks (.comment h .nil) cs).1
  simp only [List.cons_append, List.append_assoc, List.nil_append] at hlead
  exact hlead

/-- Where neither a separator nor a comment begins, something is found. -/
theorem exists_cut_eq_found {c : Char} {cs : List Char} (hsep : isSeparator c = false)
    (hcomment : ¬ ['/', '/'] <+: c :: cs) :
    ∃ finding, Piece.cut table (c :: cs) = .found finding := by
  cases hlongest : longest table (c :: cs) with
  | none =>
      unfold Piece.cut
      rw [hlongest]
      exact ⟨_, rfl⟩
  | some best =>
      obtain ⟨rule, n⟩ := best
      obtain ⟨-, hreach, hpos⟩ := longest_mem hlongest
      rw [Piece.cut_of_longest hlongest]
      cases rule with
      | separators =>
          have hrun : runLength isSeparator (c :: cs) ≠ 0 := by
            have hn : n = runLength isSeparator (c :: cs) := hreach
            omega
          exact absurd (hsep.symm.trans (runLength_cons_ne_zero.mp hrun)) (by simp)
      | comment =>
          exact absurd (prefix_of_reach_comment (by omega : comment.reach (c :: cs) ≠ 0)) hcomment
      | word =>
          unfold Piece.ofLexeme Piece.ofWord
          dsimp only
          split <;> exact ⟨_, rfl⟩
      | number =>
          unfold Piece.ofLexeme Piece.ofNumber
          dsimp only
          split <;> exact ⟨_, rfl⟩
      | quote =>
          unfold Piece.ofLexeme Piece.ofString
          dsimp only
          split <;> exact ⟨_, rfl⟩
      | punct mark => exact ⟨_, rfl⟩

end Scan

/-! ## What is left behind them -/

theorem afterBlanks_separator {c : Char} (h : isSeparator c = true) (cs : List Char) :
    afterBlanks (c :: cs) = afterBlanks cs := by
  rw [afterBlanks, if_pos h]

theorem afterBlanks_slashes (cs : List Char) :
    afterBlanks ('/' :: '/' :: cs) = afterBlanks (cs.dropWhile (· != '\n')) := by
  have hstarts : ['/', '/'].isPrefixOf ('/' :: '/' :: cs) = true :=
    List.isPrefixOf_iff_prefix.mpr (List.prefix_append ['/', '/'] cs)
  rw [afterBlanks, if_neg (by decide), if_pos hstarts, List.dropWhile_cons_of_pos (by decide)]

/-- A comment is taken away with its newline, which is a separator. -/
theorem afterBlanks_comment {body : List Char} (h : '\n' ∉ body) (cs : List Char) :
    afterBlanks ('/' :: '/' :: (body ++ '\n' :: cs)) = afterBlanks cs := by
  rw [afterBlanks_slashes, (Scan.takeWhile_line h cs).2, afterBlanks_separator (by decide)]

/-- Without one it is the last line. -/
theorem afterBlanks_lastComment {body : List Char} (h : '\n' ∉ body) :
    afterBlanks ('/' :: '/' :: body) = [] := by
  have hline : body.dropWhile (· != '\n') = [] :=
    List.dropWhile_eq_nil_iff.mpr fun c hc => bne_iff_ne.mpr fun heq => h (heq ▸ hc)
  rw [afterBlanks_slashes, hline, afterBlanks]

theorem afterBlanks_other {c : Char} {cs : List Char} (hsep : isSeparator c = false)
    (hcomment : ¬ ['/', '/'] <+: c :: cs) : afterBlanks (c :: cs) = c :: cs := by
  rw [afterBlanks, if_neg (by rw [hsep]; simp),
    if_neg fun hstarts => hcomment (List.isPrefixOf_iff_prefix.mp hstarts)]

/-- **Induction blank by blank.** A text is at its end, or begins with a separator, with a comment
that has its newline or goes on to the end, or with something else. -/
@[elab_as_elim]
theorem blanks_induction {P : List Char → Prop} (nil : P [])
    (separator : ∀ c cs, isSeparator c = true → P cs → P (c :: cs))
    (comment : ∀ body cs, '\n' ∉ body → P cs → P ('/' :: '/' :: (body ++ '\n' :: cs)))
    (lastComment : ∀ body, '\n' ∉ body → P ('/' :: '/' :: body))
    (other : ∀ c cs, isSeparator c = false → ¬ ['/', '/'] <+: c :: cs → P (c :: cs))
    (cs : List Char) : P cs := by
  cases cs with
  | nil => exact nil
  | cons c cs =>
      cases hsep : isSeparator c with
      | true =>
          have hlt : cs.length < (c :: cs).length := Nat.lt_succ_self _
          exact separator c cs hsep (blanks_induction nil separator comment lastComment other cs)
      | false =>
          by_cases hcomment : ['/', '/'] <+: c :: cs
          · obtain ⟨rest, hrest⟩ := hcomment
            rw [← hrest]
            by_cases hline : '\n' ∈ rest
            · obtain ⟨body, back, hbody, hfirst⟩ := List.eq_append_cons_of_mem hline
              have hlt : back.length < (c :: cs).length := by
                rw [← hrest, hbody]
                simp only [List.length_append, List.length_cons]
                omega
              rw [hbody]
              exact comment body back hfirst
                (blanks_induction nil separator comment lastComment other back)
            · exact lastComment rest hline
          · exact other c cs hsep hcomment
termination_by cs.length
decreasing_by all_goals exact hlt

/-- What is behind the blanks of a text does not begin with a separator. -/
theorem isSeparator_of_afterBlanks {c : Char} {cs rest : List Char}
    (h : afterBlanks cs = c :: rest) : isSeparator c = false := by
  induction cs using blanks_induction with
  | nil => exact absurd h (by rw [afterBlanks]; simp)
  | separator d cs hsep ih => exact ih ((afterBlanks_separator hsep cs).symm.trans h)
  | comment body cs hbody ih => exact ih ((afterBlanks_comment hbody cs).symm.trans h)
  | lastComment body hbody => exact absurd ((afterBlanks_lastComment hbody).symm.trans h) (by simp)
  | other d cs hsep hcomment =>
      rw [afterBlanks_other hsep hcomment] at h
      injection h with hd _
      rw [← hd]
      exact hsep

namespace Scan

/-- **What a scan has in front of its finding are the blanks of the text.** -/
theorem lead_append_afterBlanks (cs : List Char) : (of table cs).lead ++ afterBlanks cs = cs := by
  induction cs using blanks_induction with
  | nil => rw [of_nil, afterBlanks]; rfl
  | separator c cs hsep ih =>
      rw [(of_separator hsep cs).1, afterBlanks_separator hsep, List.cons_append, ih]
  | comment body cs hbody ih =>
      rw [lead_comment hbody, afterBlanks_comment hbody]
      simp only [List.cons_append, List.append_assoc, ih]
  | lastComment body hbody =>
      have hall : ∀ c ∈ body, (c != '\n') = true :=
        fun c hc => bne_iff_ne.mpr fun heq => hbody (heq ▸ hc)
      rw [(of_comment body).1, List.takeWhile_eq_self_iff.mpr hall,
        List.dropWhile_eq_nil_iff.mpr hall, of_nil, afterBlanks_lastComment hbody, lead_nil,
        List.append_nil, List.append_nil]
  | other c cs hsep hcomment =>
      obtain ⟨finding, hcut⟩ := exists_cut_eq_found hsep hcomment
      rw [of_eq_of_found hcut, afterBlanks_other hsep hcomment]
      rfl

/-- So the finding is made right behind them. -/
theorem Reads.eq_afterBlanks {cs behind : List Char} (h : Reads table cs (of table cs) behind) :
    behind = afterBlanks cs :=
  List.append_cancel_left (h.append.trans (lead_append_afterBlanks cs).symm)

end Scan

end ScriptFront
