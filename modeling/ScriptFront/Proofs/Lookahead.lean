import ScriptFront.Proofs.Blanks
import ScriptFront.Proofs.ClosingQuote
import ScriptFront.Proofs.Lexemes

/-!
# What lies behind a lexeme

A lexeme is cut off in front of a text, and to know where it ends the rules look into that text.
This file says how little of it they need. There are two cases.

If the text behind the lexeme is cut short, wherever that is, the token stays what it is
(`cut_token_of_isPrefix`): its rule reaches as far as before and the others no farther. If a
separator is put behind the whole text, with anything behind that, nothing changes either
(`cut_append`). This holds of mistakes as well, with one exception, since a string that is
not closed may be closed by what is added.

What a scan skips first does not matter, as long as something is found behind it: it is made of
blanks, and blanks in front of any text are skipped (`Scan.of_lead_append`).
-/

namespace ScriptFront

open Rule

/-! ## Strings -/

namespace StringBody

/-- No string is read past the end of the text. -/
theorem read?_le_length {cs value : List Char} {n : Nat} (h : read? cs = some (value, n)) :
    n ≤ cs.length := by
  obtain ⟨body, rest, rfl, rfl, -, -⟩ := read?_eq_some h
  simp only [List.length_append, List.length_cons]
  omega

/-- **A string is read the same when what is behind it is cut off.** -/
theorem read?_of_append {body rest value : List Char}
    (h : read? (body ++ rest) = some (value, body.length)) :
    read? body = some (value, body.length) := by
  cases hread : read? body with
  | some found =>
      rw [read?_append hread] at h
      exact h
  | none =>
      -- the closing quote is the last character of the body, so the body is closed by itself
      obtain ⟨front, back, happend, hlength, hescaped, -⟩ := read?_eq_some h
      rw [List.append_cons] at happend
      have hbody := (List.append_inj happend (by simp [hlength])).1
      have hquote := read?_eq_none_iff.mp hread front [] hbody
      rw [hescaped] at hquote
      exact absurd hquote Bool.false_ne_true

end StringBody

/-! ## Pieces -/

/-- The same finding, in front of more text. -/
def Finding.before (more : List Char) : Finding → Finding
  | .token kind value lexeme rest => .token kind value lexeme (rest ++ more)
  | .eof => .eof
  | .mistake cause => .mistake cause

namespace Piece

variable {rules : List Rule} {cs : List Char}

/-- A token stays what its rule makes of it when the text behind it is cut short. -/
theorem ofLexeme_of_isPrefix {rule : Rule} {first second rest front : List Char} {kind : Kind}
    {value : String}
    (h : ofLexeme rule first (second ++ rest) =
      found (.token kind value (first ++ second) rest))
    (hstarts : front <+: rest) :
    ofLexeme rule first (second ++ front) = found (.token kind value (first ++ second) front) := by
  cases rule with
  | word =>
      simp only [ofLexeme, ofWord] at h ⊢
      split at h <;> simp only [found.injEq, Finding.token.injEq] at h <;>
        obtain ⟨rfl, rfl, hfirst, -⟩ := h <;>
        simp only [List.self_eq_append_right.mp hfirst, List.append_nil, List.nil_append]
  | number =>
      simp only [ofLexeme, ofNumber] at h ⊢
      by_cases hexcess : excess first (second ++ rest) = 0
      · rw [if_pos hexcess] at h
        simp only [found.injEq, Finding.token.injEq] at h
        obtain ⟨rfl, rfl, hfirst, -⟩ := h
        have hsecond := List.self_eq_append_right.mp hfirst
        subst hsecond
        -- fewer fractional parts can follow than before, and none did
        have hnone : excess first front = 0 := by
          unfold excess at hexcess ⊢
          split
          · rename_i hpoint
            rw [if_pos hpoint] at hexcess
            have := fractions_le_of_isPrefix hstarts
            rw [List.nil_append] at hexcess
            omega
          · rfl
        rw [List.nil_append, List.append_nil, if_pos hnone]
      · rw [if_neg hexcess] at h
        exact absurd h (by simp)
  | quote =>
      simp only [ofLexeme, ofString] at h ⊢
      split at h
      · exact absurd h (by simp)
      · rename_i meaning n hread
        simp only [found.injEq, Finding.token.injEq] at h
        obtain ⟨rfl, rfl, hlexeme, hrest⟩ := h
        -- the body of the string is what its lexeme has behind the opening quote
        have htake := List.append_cancel_left hlexeme
        have hn : n = second.length := by
          have hlength := congrArg List.length htake
          rw [List.length_take_of_le (StringBody.read?_le_length hread)] at hlength
          exact hlength
        rw [hn] at hread
        simp only [StringBody.read?_append (StringBody.read?_of_append hread) front,
          List.take_left, List.drop_left]
  | punct mark =>
      simp only [ofLexeme, found.injEq, Finding.token.injEq] at h ⊢
      obtain ⟨rfl, rfl, hfirst, -⟩ := h
      have hsecond := List.self_eq_append_right.mp hfirst
      subst hsecond
      simp
  | separators => exact absurd h (by simp [ofLexeme])
  | comment => exact absurd h (by simp [ofLexeme])

/-- **A token stays what it is when the text behind it is cut short.** -/
theorem cut_token_of_isPrefix {lexeme rest front : List Char} {kind : Kind} {value : String}
    (h : cut rules (lexeme ++ rest) = found (.token kind value lexeme rest))
    (hstarts : front <+: rest) :
    cut rules (lexeme ++ front) = found (.token kind value lexeme front) := by
  obtain ⟨c, cs, rfl⟩ := List.exists_cons_of_ne_nil (append_of_cut_token h).2
  unfold cut at h ⊢
  simp only [List.cons_append] at h ⊢
  cases hlongest : longest rules (c :: (cs ++ rest)) with
  | none =>
      rw [hlongest] at h
      exact absurd h (by simp)
  | some best =>
      obtain ⟨rule, n⟩ := best
      simp only [hlongest] at h
      -- the rule that applies reaches over a start of the lexeme, which is left whole
      have hwithin : n ≤ (c :: cs).length := by
        have hparts := append_of_parts?_ofLexeme (congrArg parts? h)
        have hlength := hparts.2.length_le
        obtain ⟨-, hreach, -⟩ := longest_mem hlongest
        rw [List.length_take_of_le (by rw [hreach]; exact reach_le_length _ _)] at hlength
        exact hlength
      have hshort : (c :: (cs ++ front)) <+: (c :: (cs ++ rest)) := by
        rw [← List.cons_append, ← List.cons_append]
        exact (List.prefix_append_right_inj (c :: cs)).mpr hstarts
      have hnow := longest_of_isPrefix hshort hlongest
        (by rw [← List.cons_append, List.length_append]; omega)
      simp only [hnow]
      rw [← List.cons_append] at h ⊢
      rw [List.take_append_of_le_length hwithin, List.drop_append_of_le_length hwithin] at h ⊢
      have hsplit := List.take_append_drop n (c :: cs)
      generalize (c :: cs).take n = first at h hsplit ⊢
      generalize (c :: cs).drop n = second at h hsplit ⊢
      rw [← hsplit] at h ⊢
      exact ofLexeme_of_isPrefix h hstarts

/-- What a rule makes of a lexeme does not change when a separator is put behind the text, unless
it is a string that is not closed. -/
theorem ofLexeme_append {rule : Rule} {lexeme rest : List Char} {finding : Finding}
    (h : ofLexeme rule lexeme rest = found finding)
    (hclosed : finding ≠ .mistake .unterminatedString) {d : Char} (hd : isSeparator d = true)
    (more : List Char) :
    ofLexeme rule lexeme (rest ++ d :: more) = found (finding.before (d :: more)) := by
  cases rule with
  | word =>
      simp only [ofLexeme, ofWord] at h ⊢
      split at h <;> injection h with h <;> subst h <;> rfl
  | number =>
      have hexcess : excess lexeme (rest ++ d :: more) = excess lexeme rest := by
        unfold excess
        rw [fractions_append hd]
      have hle : excess lexeme rest ≤ rest.length := by
        unfold excess
        split
        · exact fractions_le_length rest
        · exact Nat.zero_le _
      simp only [ofLexeme, ofNumber, hexcess, List.take_append_of_le_length hle] at h ⊢
      split at h <;> injection h with h <;> subst h
      · rename_i hzero
        rw [if_pos hzero]
        rfl
      · rename_i hmore
        rw [if_neg hmore]
        rfl
  | quote =>
      simp only [ofLexeme, ofString] at h ⊢
      split at h
      · injection h with h
        exact absurd h.symm hclosed
      · rename_i meaning n hread
        injection h with h
        subst h
        have hle := StringBody.read?_le_length hread
        simp only [StringBody.read?_append hread, List.take_append_of_le_length hle,
          List.drop_append_of_le_length hle]
        rfl
  | punct mark =>
      injection h with h
      subst h
      rfl
  | separators => exact absurd h (by simp [ofLexeme])
  | comment => exact absurd h (by simp [ofLexeme])

/-- Where something is found, neither a separator nor a comment begins, whatever is put behind. -/
theorem rule_ne_of_cut_eq_found {rule : Rule} {finding : Finding} {c d : Char}
    (h : cut table (c :: cs) = found finding) (hd : isSeparator d = true) {more : List Char}
    (hreach : rule.reach (c :: cs ++ d :: more) ≠ 0) : rule ≠ separators ∧ rule ≠ comment := by
  constructor
  · intro hrule
    subst hrule
    have hc : isSeparator c = true := runLength_cons_ne_zero.mp hreach
    rw [cut_separators hc] at h
    exact absurd h (by simp)
  · intro hrule
    subst hrule
    obtain ⟨rest, hrest⟩ := prefix_of_reach_comment hreach
    cases cs with
    | nil =>
        -- the second slash would be the separator
        injection hrest with _ hrest
        injection hrest with hslash _
        subst hslash
        exact absurd hd (by decide)
    | cons e cs =>
        injection hrest with hc hrest
        injection hrest with he _
        subst hc
        subst he
        rw [cut_comment] at h
        exact absurd h (by simp)

/-- **What is found stays the same when a separator is put behind the text**, unless it is a string
that is not closed. -/
theorem cut_append {finding : Finding} (h : cut table cs = found finding)
    (heof : finding ≠ .eof) (hclosed : finding ≠ .mistake .unterminatedString) {d : Char}
    (hd : isSeparator d = true) (more : List Char) :
    cut table (cs ++ d :: more) = found (finding.before (d :: more)) := by
  cases cs with
  | nil =>
      injection h with h
      exact absurd h.symm heof
  | cons c cs =>
      have hstarts : (c :: cs) <+: (c :: cs ++ d :: more) := List.prefix_append _ _
      cases hlongest : longest table (c :: cs ++ d :: more) with
      | none =>
          -- no rule reaches into the longer text, so none reaches into its start
          have hnone : longest table (c :: cs) = none := by
            rw [longest_eq_none_iff] at hlongest ⊢
            intro rule hrule
            have := reach_le_of_isPrefix rule hstarts
            rw [hlongest rule hrule] at this
            omega
          rw [cut, hnone] at h
          injection h with h
          subst h
          rw [List.cons_append] at hlongest ⊢
          rw [cut, hlongest]
          rfl
      | some best =>
          obtain ⟨rule, n⟩ := best
          obtain ⟨-, hreach, hpos⟩ := longest_mem hlongest
          obtain ⟨hsep, hcomment⟩ := rule_ne_of_cut_eq_found h hd (hreach ▸ Nat.ne_of_gt hpos)
          have hle : n ≤ (c :: cs).length := by
            rw [hreach]
            exact reach_append_le hd hsep hcomment _ _
          rw [cut_of_longest (longest_of_isPrefix hstarts hlongest hle)] at h
          rw [List.cons_append] at hlongest ⊢
          rw [cut_of_longest hlongest, ← List.cons_append, List.take_append_of_le_length hle,
            List.drop_append_of_le_length hle]
          exact ofLexeme_append h hclosed hd more

end Piece

/-! ## Scans -/

namespace Scan

/-- **What is skipped in front of a finding is made of blanks**, each comment with its newline. -/
theorem blanks_lead {cs : List Char} (h : afterBlanks cs ≠ []) : Blanks (of table cs).lead := by
  induction cs using blanks_induction with
  | nil => exact absurd (by rw [afterBlanks]) h
  | separator c cs hsep ih =>
      rw [afterBlanks_separator hsep] at h
      rw [(of_separator hsep cs).1]
      exact .separator hsep (ih h)
  | comment body cs hbody ih =>
      rw [afterBlanks_comment hbody] at h
      rw [lead_comment hbody]
      exact .comment hbody (ih h)
  | lastComment body hbody => exact absurd (afterBlanks_lastComment hbody) h
  | other c cs hsep hcomment =>
      obtain ⟨finding, hcut⟩ := exists_cut_eq_found hsep hcomment
      rw [of_eq_of_found hcut]
      exact .nil

/-- A text in which nothing is found is made of blanks, when its last line is ended. -/
theorem blanks_append_newline {cs : List Char} (h : afterBlanks cs = []) :
    Blanks (cs ++ ['\n']) := by
  induction cs using blanks_induction with
  | nil => exact .separator (by decide) .nil
  | separator c cs hsep ih =>
      rw [afterBlanks_separator hsep] at h
      exact .separator hsep (ih h)
  | comment body cs hbody ih =>
      rw [afterBlanks_comment hbody] at h
      simp only [List.cons_append, List.append_assoc]
      exact .comment hbody (ih h)
  | lastComment body hbody => exact .comment hbody .nil
  | other c cs hsep hcomment =>
      rw [afterBlanks_other hsep hcomment] at h
      exact absurd h (by simp)

/-- Nothing is found just if blanks are all there is. -/
theorem finding_eq_eof_iff {cs : List Char} :
    (of table cs).finding = .eof ↔ afterBlanks cs = [] := by
  obtain ⟨behind, hreads⟩ := of_reads table cs
  rw [hreads.eof_iff, hreads.eq_afterBlanks]

/-- **Where something is found stands a character that is no separator.** -/
theorem exists_behind {cs : List Char} (h : (of table cs).finding ≠ .eof) :
    ∃ c rest, afterBlanks cs = c :: rest ∧ isSeparator c = false
      ∧ Piece.cut table (c :: rest) = .found (of table cs).finding := by
  obtain ⟨behind, hreads⟩ := of_reads table cs
  have hcut := hreads.cut
  rw [hreads.eq_afterBlanks] at hcut
  cases hrest : afterBlanks cs with
  | nil => exact absurd (finding_eq_eof_iff.mpr hrest) h
  | cons c rest =>
      rw [hrest] at hcut
      exact ⟨c, rest, rfl, isSeparator_of_afterBlanks hrest, hcut⟩

/-- **What is skipped in front of a finding is skipped in front of any other.** -/
theorem of_lead_append {cs behind : List Char} {finding : Finding}
    (h : (of table cs).finding ≠ .eof) (hcut : Piece.cut table behind = .found finding) :
    (of table ((of table cs).lead ++ behind)).lead = (of table cs).lead
      ∧ (of table ((of table cs).lead ++ behind)).finding = finding := by
  have hblanks := blanks_lead fun hnil => h (finding_eq_eof_iff.mpr hnil)
  obtain ⟨hlead, hfinding⟩ := of_blanks hblanks behind
  rw [of_eq_of_found hcut] at hlead hfinding
  exact ⟨by rw [hlead, lead_nil, List.append_nil], hfinding⟩

end Scan

end ScriptFront
