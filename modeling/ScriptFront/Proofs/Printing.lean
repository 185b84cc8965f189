import ScriptFront.Proofs.Blanks
import ScriptFront.Proofs.ClosingQuote
import ScriptFront.Proofs.Decimals
import ScriptFront.Proofs.Stream

/-!
# Printing tokens and reading them back

Tokens can be written one after the other, each with a separator behind it, and are read back as
they were. `Written` lists what may be written for a token, without regard to the rules. A
`Printed` token is such a text together with the gap that follows it.

One separator is enough. It goes on with no word, number or mark, so what is read in front of it
is what was written there and not more (`cut_written`). Whatever stands behind it in the gap is
skipped by the next scan. So every scan takes one lexeme and leaves the gap behind it as a lead for
the next, and the offsets of the tokens are the widths of what was written before them
(`results_print`).
-/

namespace ScriptFront

open Rule

/-- A start of a text that lacks one of its characters ends before that. -/
theorem prefix_of_prefix_append_cons {front start back : List Char} {c : Char}
    (h : start <+: front ++ c :: back) (hc : c ∉ start) : start <+: front := by
  rw [List.append_cons] at h
  rcases List.prefix_or_prefix_of_prefix h (List.prefix_append (front ++ [c]) back) with h | h
  · rcases List.prefix_concat_iff.mp h with rfl | h
    · exact absurd (List.mem_append_right front List.mem_cons_self) hc
    · exact h
  · exact absurd (h.subset (List.mem_append_right front List.mem_cons_self)) hc

/-- A text that is written for one token, with the kind and the value of that token. -/
inductive Written : Kind → String → List Char → Prop where
  /-- The only spelling of a kind. -/
  | spelling {kind : Kind} {text : String} :
      kind.spelling? = some text → Written kind "" text.toList
  /-- A word that is not reserved. -/
  | identifier {c : Char} {cs : List Char} :
      isWordStart c = true → (∀ d ∈ cs, isWordPart d = true) →
      (∀ word : Keyword, String.ofList (c :: cs) ≠ word.spelling) →
      Written .identifier (String.ofList (c :: cs)) (c :: cs)
  /-- Digits, with one fractional part at most. -/
  | number {n : Nat} {cs : List Char} :
      Decimal n cs → n ≤ 1 → Written .number (String.ofList cs) cs
  /-- A quote, and a body that is closed by its last character. -/
  | string {body value : List Char} :
      StringBody.read? body = some (value, body.length) →
      Written .string (String.ofList value) ('"' :: body)

/-! ## One lexeme -/

/-- A reserved word is a word. -/
theorem Keyword.exists_letters (word : Keyword) :
    ∃ c cs, word.spelling.toList = c :: cs ∧ isWordStart c = true
      ∧ ∀ d ∈ cs, isWordPart d = true := by
  have hall : ∀ w ∈ Keyword.all, w.spelling.toList.head?.any isWordStart = true
      ∧ w.spelling.toList.tail.all isWordPart = true := by decide
  obtain ⟨hhead, htail⟩ := hall word (Keyword.mem_all word)
  cases hspelling : word.spelling.toList with
  | nil => exact absurd hspelling (by cases word <;> decide)
  | cons c cs =>
      rw [hspelling] at hhead htail
      exact ⟨c, cs, rfl, hhead, List.all_eq_true.mp htail⟩

namespace Piece

/-- A word ends at a separator. -/
theorem cut_word_separator {c d : Char} {cs : List Char} (hc : isWordStart c = true)
    (hcs : ∀ x ∈ cs, isWordPart x = true) (hd : isSeparator d = true) (rest : List Char) :
    cut table (c :: cs ++ d :: rest) = ofWord (c :: cs) (d :: rest) := by
  have hstop : isWordPart d ≠ true := by
    rw [isWordPart_eq_false_of_isSeparator hd]
    exact Bool.false_ne_true
  rw [List.cons_append, cut_word hc, List.takeWhile_append_of_pos hcs,
    List.dropWhile_append_of_pos hcs, List.takeWhile_cons_of_neg hstop,
    List.dropWhile_cons_of_neg hstop, List.append_nil]

/-- So does a mark. -/
theorem cut_mark_separator (mark : Punct) {d : Char} (hd : isSeparator d = true)
    (rest : List Char) :
    cut table (mark.spelling.toList ++ d :: rest) =
      found (.token (.punct mark) "" mark.spelling.toList (d :: rest)) := by
  have hmarks : ∀ m ∈ Punct.all, m.spelling.toList.any isSeparator = false := by decide
  have hslashes : ∀ m ∈ Punct.all, ['/', '/'].isPrefixOf m.spelling.toList = false := by decide
  -- neither a longer mark nor a comment can go past the separator
  refine cut_mark ?_ ?_
  · intro other hstarts
    refine (prefix_of_prefix_append_cons hstarts fun hmem => ?_).length_le
    have hany := List.any_eq_true.mpr ⟨d, hmem, hd⟩
    rw [hmarks other (Punct.mem_all other)] at hany
    exact Bool.false_ne_true hany
  · intro hstarts
    have hnot : d ∉ ['/', '/'] := by
      intro hmem
      have hslash : d = '/' := by simpa using hmem
      subst hslash
      exact absurd hd (by decide)
    have hmark := List.isPrefixOf_iff_prefix.mpr (prefix_of_prefix_append_cons hstarts hnot)
    rw [hslashes mark (Punct.mem_all mark)] at hmark
    exact Bool.false_ne_true hmark

/-- A decimal ends at a separator too. -/
theorem longestDecimal_separator {n : Nat} {cs : List Char} (h : Decimal n cs) {d : Char}
    (hd : isSeparator d = true) (rest : List Char) : longestDecimal (cs ++ d :: rest) = cs := by
  obtain ⟨c, front, rfl, hc⟩ := h.exists_cons
  obtain ⟨m, hm⟩ := exists_decimal hc (front ++ d :: rest)
  have hnot : d ∉ longestDecimal (c :: front ++ d :: rest) := by
    intro hmem
    rcases hm.mem d hmem with hdigit | rfl
    · rw [isDigit_eq_false_of_isSeparator hd] at hdigit
      exact Bool.false_ne_true hdigit
    · exact absurd hd (by decide)
  -- so the longest decimal is within the one that was written, which is one itself
  have hstarts := prefix_of_prefix_append_cons (longestDecimal_isPrefix _) hnot
  exact (h.eq_longestDecimal (List.prefix_append _ _) hstarts.length_le).symm

/-- **What is written for a token is read as that token**, in front of a separator. -/
theorem cut_written {kind : Kind} {value : String} {lexeme : List Char}
    (h : Written kind value lexeme) {d : Char} (hd : isSeparator d = true) (rest : List Char) :
    cut table (lexeme ++ d :: rest) = found (.token kind value lexeme (d :: rest)) := by
  cases h with
  | @spelling kind text hspelling =>
      cases kind with
      | punct mark =>
          injection hspelling with htext
          rw [← htext]
          exact cut_mark_separator mark hd rest
      | keyword word =>
          injection hspelling with htext
          rw [← htext]
          obtain ⟨c, cs, hword, hc, hcs⟩ := word.exists_letters
          rw [hword, cut_word_separator hc hcs hd, ofWord, ← hword, String.ofList_toList,
            Keyword.ofSpelling?_eq_some_iff.mpr rfl]
      | _ => exact absurd hspelling (by simp [Kind.spelling?])
  | @identifier c cs hc hcs hword =>
      have hnone : Keyword.ofSpelling? (String.ofList (c :: cs)) = none := by
        rw [Option.eq_none_iff_forall_ne_some]
        exact fun word hsome => hword word (Keyword.ofSpelling?_eq_some_iff.mp hsome)
      rw [cut_word_separator hc hcs hd, ofWord, hnone]
  | @number n cs hdecimal hle =>
      obtain ⟨c, front, rfl, hc⟩ := hdecimal.exists_cons
      have hlongest := longestDecimal_separator hdecimal hd rest
      have hcut := @cut_decimal n c (front ++ d :: rest) hc (by
        rw [← List.cons_append, hlongest]
        exact hdecimal)
      rw [← List.cons_append, hlongest, if_pos hle, List.drop_left] at hcut
      exact hcut
  | @string body value hread =>
      rw [List.cons_append, cut_quote, ofString, StringBody.read?_append hread]
      simp only [List.take_left, List.drop_left]
      rfl

end Piece

/-! ## One after the other -/

/-- A text that is written between tokens: a separator and blanks. -/
def IsGap (gap : List Char) : Prop :=
  ∃ c blank, gap = c :: blank ∧ isSeparator c = true ∧ Blanks blank

/-- A token as it is written, and the gap behind it. -/
structure Printed where
  kind : Kind
  value : String
  lexeme : List Char
  gap : List Char
  written : Written kind value lexeme
  isGap : IsGap gap

namespace Printed

/-- Printed tokens one after the other. -/
def print (ps : List Printed) : List Char := ps.flatMap fun p => p.lexeme ++ p.gap

/-- The tokens that are printed from an offset on, each in the place of its lexeme, and then the
one for the end. -/
def tokensFrom (file : String) (offset : Nat) : List Printed → List Token
  | [] => [⟨.eof, "", ⟨⟨offset, file⟩, ⟨offset, file⟩⟩⟩]
  | p :: ps =>
      ⟨p.kind, p.value, ⟨⟨offset, file⟩, ⟨offset + Text.width p.lexeme, file⟩⟩⟩ ::
        tokensFrom file (offset + Text.width p.lexeme + Text.width p.gap) ps

/-- A gap is made of blanks. -/
theorem blanks_gap (p : Printed) : Blanks p.gap := by
  obtain ⟨c, blank, hgap, hc, hblank⟩ := p.isGap
  rw [hgap]
  exact Blanks.separator hc hblank

/-- A scan skips blanks and takes the first printed token. -/
theorem scan_print {blank : List Char} (h : Blanks blank) (p : Printed) (rest : List Char) :
    (Scan.of table (blank ++ (p.lexeme ++ (p.gap ++ rest)))).lead = blank
      ∧ (Scan.of table (blank ++ (p.lexeme ++ (p.gap ++ rest)))).finding =
        .token p.kind p.value p.lexeme (p.gap ++ rest) := by
  obtain ⟨c, more, hgap, hc, -⟩ := p.isGap
  have hfound := Scan.of_eq_of_found (Piece.cut_written p.written hc (more ++ rest))
  rw [← List.cons_append, ← hgap] at hfound
  obtain ⟨hlead, hfinding⟩ := Scan.of_blanks h (p.lexeme ++ (p.gap ++ rest))
  rw [hlead, hfinding, hfound]
  exact ⟨List.append_nil blank, rfl⟩

/-- **Reading to the end gives the printed tokens back.** -/
theorem results_print (ps : List Printed) {s : Session} {blank : List Char} (h : Blanks blank)
    (hsize : s.pos + Text.width (blank ++ print ps) ≤ maxOffset) :
    (s.sweepText table (blank ++ print ps)).results =
      (tokensFrom s.file (s.pos + Text.width blank) ps).map .ok := by
  induction ps generalizing s blank with
  | nil =>
      obtain ⟨hlead, hfinding⟩ := Scan.of_blanks h []
      rw [Scan.of_nil] at hlead hfinding
      have hrest : (Scan.of table (blank ++ [])).rest? = none :=
        Scan.rest?_eq_none_iff.mpr (Or.inl hfinding)
      have hfound : s.found (Scan.of table (blank ++ [])) = s.pos + Text.width blank := by
        unfold Session.found
        rw [hlead, Scan.lead_nil, List.append_nil]
      rw [Text.width_append] at hsize
      show (s.sweepText table (blank ++ [])).results = _
      rw [(Session.sweepText_of_rest?_none hrest).1, Session.settle_of_eof hfinding, hfound,
        Session.span, Session.positionAt_of_le (by omega)]
      rfl
  | cons p ps ih =>
      have hprint : print (p :: ps) = p.lexeme ++ (p.gap ++ print ps) := by
        rw [print, List.flatMap_cons, List.append_assoc]
        rfl
      obtain ⟨hlead, hfinding⟩ := scan_print h p (print ps)
      have hrest : (Scan.of table (blank ++ (p.lexeme ++ (p.gap ++ print ps)))).rest? =
          some (p.gap ++ print ps) :=
        Scan.rest?_eq_some_iff.mpr ⟨_, _, _, hfinding⟩
      have hfound : s.found (Scan.of table (blank ++ (p.lexeme ++ (p.gap ++ print ps)))) =
          s.pos + Text.width blank := by
        unfold Session.found
        rw [hlead]
      rw [hprint] at hsize ⊢
      simp only [Text.width_append] at hsize
      -- the gap behind this token is what the next scan has to skip
      rw [(Session.sweepText_of_rest?_some hrest).1, Session.settle_of_token hfinding, hfound,
        ih p.blanks_gap (by simp only [Text.width_append]; omega), Session.span,
        Session.positionAt_of_le (by omega), Session.positionAt_of_le (by omega)]
      rfl

end Printed

/-- **What is printed is read back.** Printed tokens with blanks in front, if they are not too long,
are read as these tokens and no others. Each has its kind and its value, its span is the place of
its lexeme, and behind them is the token for the end. -/
theorem tokenize_print (file? : Option String) {blank : List Char} (hblank : Blanks blank)
    (ps : List Printed) (hsize : Text.width (blank ++ Printed.print ps) ≤ maxOffset) :
    tokenize (String.ofList (blank ++ Printed.print ps)) file? =
      .ok (Printed.tokensFrom (file?.getD Session.unnamed) (Text.width blank) ps) := by
  have hresults := @Printed.results_print ps
    (Session.start (String.ofList (blank ++ Printed.print ps)) file?) blank hblank
    (by rw [Session.start, Nat.zero_add]; exact hsize)
  rw [Session.tokenize_eq file? (by rw [String.toList_ofList]; exact hsize), String.toList_ofList,
    hresults, Session.mapM_id_ok, Session.start, Nat.zero_add]

/-- A comment, and then a reserved word and a string that has an escaped quote. -/
theorem tokenize_print_string :
    Blanks ['/', '/', 'é', '\n']
      ∧ Text.width "//é\nin \"\\\"\"\n".toList ≤ maxOffset
      ∧ tokenize "//é\nin \"\\\"\"\n" (some "a") =
        .ok [⟨.keyword .inWord, "", ⟨⟨5, "a"⟩, ⟨7, "a"⟩⟩⟩, ⟨.string, "\"", ⟨⟨8, "a"⟩, ⟨12, "a"⟩⟩⟩,
          ⟨.eof, "", ⟨⟨13, "a"⟩, ⟨13, "a"⟩⟩⟩] := by
  have hblank : Blanks ['/', '/', 'é', '\n'] := @Blanks.comment ['é'] [] (by decide) .nil
  have hsize : Text.width "//é\nin \"\\\"\"\n".toList ≤ maxOffset := by decide
  have hword : Written (.keyword .inWord) "" ['i', 'n'] :=
    @Written.spelling (.keyword .inWord) "in" rfl
  have hread : StringBody.read? ['\\', '"', '"'] = some (['"'], 3) := by decide +kernel
  refine ⟨hblank, hsize, ?_⟩
  exact tokenize_print (some "a") hblank
    [⟨.keyword .inWord, "", ['i', 'n'], [' '], hword, ' ', [], rfl, rfl, .nil⟩,
      ⟨.string, "\"", ['"', '\\', '"', '"'], ['\n'], .string hread, '\n', [], rfl, rfl, .nil⟩]
    hsize

end ScriptFront
