import Mathlib.Control.Monad.Basic
import ScriptFront.Error.Report
import ScriptFront.Proofs.Faults
import ScriptFront.Proofs.Locations
import ScriptFront.Proofs.Results

/-!
# Where the arrow of a report points

The last two lines of a report are the source line and the arrow. Each begins with as many
characters of its own, so the head of the arrow is under a character of the text if its shaft is as
long as what is shown in front of that one. The indentation is taken off both alike.

What is taken off the end of the source line is a different matter, because the arrow does not know
of it. The character meant is shown unless it and all that follows on its line are white space
(`arrow_points_at_mistake`). Where a string is not closed or a number is malformed it is not white
space. But there is white space that does not separate tokens, and when such a character is invalid
and ends its line, the arrow points to nothing (`arrow_points_past_line`).
-/

namespace ScriptFront

/-! ## White space at the end -/

namespace Text

/-- All of a text is trimmed just if all of it is white space. -/
theorem trimEnd_eq_nil_iff {cs : List Char} : trimEnd cs = [] ↔ cs.all isWhiteSpace = true := by
  induction cs with
  | nil => simp [trimEnd]
  | cons c cs ih =>
      rw [List.all_cons, Bool.and_eq_true, ← ih, trimEnd]
      cases trimEnd cs with
      | nil => simp
      | cons d ds => simp

/-- **Of two texts put together the second is trimmed, and the first only if nothing is left of
the second.** -/
theorem trimEnd_append (front back : List Char) :
    trimEnd (front ++ back) =
      if trimEnd back = [] then trimEnd front else front ++ trimEnd back := by
  induction front with
  | nil =>
      split
      · rename_i hback
        rw [List.nil_append, hback]
        rfl
      · rfl
  | cons c front ih =>
      rw [List.cons_append, trimEnd, ih]
      by_cases hback : trimEnd back = []
      · rw [if_pos hback, if_pos hback]
        rfl
      · rw [if_neg hback, if_neg hback]
        cases hshown : front ++ trimEnd back with
        | nil => exact absurd (List.append_eq_nil_iff.mp hshown).2 hback
        | cons d ds => rw [List.cons_append, hshown]

/-- White space behind a text is trimmed with what the text ends with. -/
theorem trimEnd_append_of_eq_nil {back : List Char} (h : trimEnd back = []) (front : List Char) :
    trimEnd (front ++ back) = trimEnd front := by
  rw [trimEnd_append, if_pos h]

/-- What is left was there before. -/
theorem mem_of_mem_trimEnd {c : Char} {cs : List Char} (h : c ∈ trimEnd cs) : c ∈ cs := by
  obtain ⟨tail, hcs, -⟩ := exists_append_trimEnd cs
  rw [hcs]
  exact List.mem_append_left _ h

/-- **A character is left in its place, unless it and all behind it are white space.** -/
theorem getElem?_trimEnd (front : List Char) (c : Char) (rest : List Char) :
    (trimEnd (front ++ c :: rest))[front.length]? =
      if (c :: rest).all isWhiteSpace then none else some c := by
  rw [trimEnd_append]
  by_cases hnil : trimEnd (c :: rest) = []
  · rw [if_pos hnil, if_pos (trimEnd_eq_nil_iff.mp hnil), List.getElem?_eq_none_iff]
    obtain ⟨tail, hfront, -⟩ := exists_append_trimEnd front
    have hlength := congrArg List.length hfront
    rw [List.length_append] at hlength
    omega
  · rw [if_neg hnil, if_neg (fun hall => hnil (trimEnd_eq_nil_iff.mpr hall)),
      List.getElem?_append_right (Nat.le_refl _), Nat.sub_self]
    obtain ⟨tail, hcs, -⟩ := exists_append_trimEnd (c :: rest)
    cases hleft : trimEnd (c :: rest) with
    | nil => exact absurd hleft hnil
    | cons d ds =>
        rw [hleft] at hcs
        injection hcs with hc _
        rw [hc]
        rfl

end Text

/-! ## The last two lines -/

namespace Report

variable (report : Report)

/-- The source line shows the text behind the line number and a bar. -/
theorem getElem?_sourceLine (n : Nat) :
    report.sourceLine[report.number.length + 3 + n]? = report.text[n]? := by
  have hlength : (report.number ++ [' ', '|', ' ']).length = report.number.length + 3 := by
    rw [List.length_append]
    rfl
  rw [sourceLine, List.getElem?_append_right (by omega), hlength, Nat.add_sub_cancel_left]

/-- The line below has one arrow head, as far behind the bar as the indent says. -/
theorem getElem?_arrowLine (j : Nat) :
    report.arrowLine[j]? = some '^' ↔ j = report.number.length + 3 + report.indent := by
  have hshaft : '^' ∉ report.barLine ++ [' '] ++ List.replicate report.indent '-' := by
    simp [barLine, List.mem_replicate]
  have hlength : (report.barLine ++ [' '] ++ List.replicate report.indent '-').length =
      report.number.length + 3 + report.indent := by
    simp only [barLine, List.length_append, List.length_replicate, List.length_singleton]
  rw [arrowLine, ← hlength]
  generalize report.barLine ++ [' '] ++ List.replicate report.indent '-' = shaft at hshaft
  constructor
  · intro hhead
    rcases Nat.lt_trichotomy j shaft.length with hlt | heq | hgt
    · rw [List.getElem?_append_left hlt] at hhead
      exact absurd (List.mem_of_getElem? hhead) hshaft
    · exact heq
    · rw [List.getElem?_eq_none_iff.mpr (by rw [List.length_append, List.length_singleton]; omega)]
        at hhead
      exact absurd hhead (by simp)
  · intro heq
    rw [heq, List.getElem?_append_right (Nat.le_refl _), Nat.sub_self]
    rfl

/-- Neither of the two lines has a newline in it. -/
theorem newline_notMem_arrowLine : '\n' ∉ report.arrowLine := by
  simp [arrowLine, barLine, List.mem_replicate]

variable {report}

theorem newline_notMem_sourceLine (h : '\n' ∉ report.text) : '\n' ∉ report.sourceLine := by
  have hdigits : '\n' ∉ report.number := fun hmem =>
    absurd (Nat.isDigit_of_mem_toDigits (by decide) (by decide) hmem) (by decide)
  simp [sourceLine, hdigits, h]

/-- A report is its five lines, each with a newline behind it. -/
theorem toList_render (report : Report) :
    report.render.toList =
      ("Error: " ++ report.heading).toList ++ '\n' :: (("-> " ++ report.file).toList ++
        '\n' :: (report.barLine ++ '\n' :: (report.sourceLine ++
          '\n' :: (report.arrowLine ++ ['\n'])))) := by
  rw [render, String.toList_ofList]
  simp only [lines, List.flatMap_cons, List.flatMap_nil, List.append_nil, List.append_assoc,
    List.cons_append, List.nil_append]

/-- **They are the last two lines of the report.** -/
theorem exists_render (report : Report) :
    ∃ above, report.render.toList =
      above ++ '\n' :: (report.sourceLine ++ '\n' :: (report.arrowLine ++ ['\n'])) := by
  refine ⟨("Error: " ++ report.heading).toList ++ '\n' :: (("-> " ++ report.file).toList ++
    '\n' :: report.barLine), ?_⟩
  rw [toList_render]
  simp only [List.append_assoc, List.cons_append]

end Report

/-! ## The report of a mistake -/

open Text

/-- Indentation is made of separators. -/
theorem Report.isIndent_of_isSeparator {c : Char} (h : isSeparator c = false) :
    isIndent c = false := by
  cases hindent : isIndent c with
  | false => rfl
  | true =>
      rcases Bool.or_eq_true_iff.mp hindent with hspace | htab
      · rw [eq_of_beq hspace] at h
        exact absurd h (by decide)
      · rw [eq_of_beq htab] at h
        exact absurd h (by decide)

/-- So it ends in front of a character that is none. -/
theorem Report.indent_append {c : Char} (h : isSeparator c = false) (front tail : List Char) :
    (front ++ c :: tail).takeWhile isIndent = front.takeWhile isIndent
      ∧ (front ++ c :: tail).dropWhile isIndent = front.dropWhile isIndent ++ c :: tail := by
  have hc : ¬ isIndent c = true := Bool.eq_false_iff.mp (isIndent_of_isSeparator h)
  induction front with
  | nil => exact ⟨List.takeWhile_cons_of_neg hc, List.dropWhile_cons_of_neg hc⟩
  | cons d front ih =>
      rw [List.cons_append]
      by_cases hd : isIndent d = true
      · rw [List.takeWhile_cons_of_pos hd, List.takeWhile_cons_of_pos hd,
          List.dropWhile_cons_of_pos hd, List.dropWhile_cons_of_pos hd, ih.1]
        exact ⟨rfl, ih.2⟩
      · rw [List.takeWhile_cons_of_neg hd, List.takeWhile_cons_of_neg hd,
          List.dropWhile_cons_of_neg hd, List.dropWhile_cons_of_neg hd]
        exact ⟨rfl, rfl⟩

/-- **What the report of a mistake shows.** The line number counts newlines. The text is the line
without its indentation and the white space at its end, and the indent is the part of it in front of
the mistake. -/
theorem Error.report_of_offset {error : Error} {front rest : List Char} {c : Char}
    (hc : isSeparator c = false) (hoffset : error.position.offset = width front) :
    (error.report (front ++ c :: rest)).line = 1 + front.count '\n'
      ∧ (error.report (front ++ c :: rest)).text =
        trimEnd ((lastLine front).dropWhile Report.isIndent ++ c :: rest.takeWhile (· != '\n'))
      ∧ (error.report (front ++ c :: rest)).indent =
        ((lastLine front).dropWhile Report.isIndent).length := by
  have hne := Rule.ne_newline_of_isSeparator hc
  obtain ⟨ending, hfirst, hending⟩ := exists_firstLine rest
  have hlength := congrArg List.length
    (List.takeWhile_append_dropWhile (p := Report.isIndent) (l := lastLine front))
  rw [List.length_append] at hlength
  unfold Error.report
  rw [hoffset, Location.find?_width_append, firstLine, if_neg hne, hfirst]
  refine ⟨rfl, ?_, ?_⟩
  · show trimEnd ((lastLine front ++ c :: (_ ++ ending)).dropWhile Report.isIndent) = _
    rw [(Report.indent_append hc _ _).2]
    have hwhite : trimEnd ending = [] := by rcases hending with rfl | rfl <;> decide
    rw [← List.cons_append, ← List.append_assoc, trimEnd_append_of_eq_nil hwhite]
  · show (lastLine front).length -
      ((lastLine front ++ c :: (_ ++ ending)).takeWhile Report.isIndent).length = _
    rw [(Report.indent_append hc _ _).1]
    omega

/-- What a report says is told by the cause, the file and what is shown. -/
theorem Error.report_congr {error other : Error} {text text' : List Char}
    (hcause : other.cause = error.cause) (hfile : other.position.file = error.position.file)
    (hline : (other.report text').line = (error.report text).line)
    (htext : (other.report text').text = (error.report text).text)
    (hindent : (other.report text').indent = (error.report text).indent) :
    other.report text' = error.report text := by
  have hheading : (other.report text').heading = (error.report text).heading := by
    simp only [Error.report, hcause]
  exact (Report.mk.injEq ..).mpr ⟨hheading, hfile, hline, htext, hindent⟩

/-- No newline is shown in it. -/
theorem Error.newline_notMem_text {error : Error} {front rest : List Char} {c : Char}
    (hc : isSeparator c = false) (hoffset : error.position.offset = width front) :
    '\n' ∉ (error.report (front ++ c :: rest)).text := by
  rw [(Error.report_of_offset hc hoffset).2.1]
  intro hmem
  rcases List.mem_append.mp (mem_of_mem_trimEnd hmem) with hfront | hback
  · exact notMem_lastLine front ((List.dropWhile_sublist _).subset hfront)
  · rcases List.mem_cons.mp hback with heq | hrest
    · exact Rule.ne_newline_of_isSeparator hc heq.symm
    · exact absurd (Rule.forall_mem_takeWhile (· != '\n') rest '\n' hrest) (by decide)

/-- A source that is not too long has its mistake at a character that is no separator. -/
theorem Session.exists_of_tokenize_eq_error {source : String} {file? : Option String}
    {error : Error} (hsize : width source.toList ≤ maxOffset)
    (herror : tokenize source file? = .error error) :
    ∃ front c rest, source.toList = front ++ c :: rest ∧ isSeparator c = false
      ∧ Piece.cut Rule.table (c :: rest) = .found (.mistake error.cause)
      ∧ error.position = ⟨width front, file?.getD unnamed⟩ := by
  obtain ⟨tokens, last, hresults, -, -⟩ :=
    exists_results Rule.table (start source file?) source.toList
  rw [tokenize_eq file? hsize, hresults, mapM_id_stream] at herror
  cases last with
  | ok eof => exact absurd herror (by simp)
  | error mistake =>
      injection herror with herror
      subst herror
      have hmem : .error mistake ∈
          ((start source file?).sweepText Rule.table source.toList).results := by
        rw [hresults]
        simp
      obtain ⟨front, c, rest, hsource, hc, hcut, hposition⟩ := exists_of_error_mem hmem
      rw [hsource, width_append] at hsize
      have hle : (start source file?).pos + width front ≤ maxOffset := by
        show 0 + _ ≤ _
        omega
      refine ⟨front, c, rest, hsource, hc, hcut, ?_⟩
      rw [hposition, positionAt_of_le hle]
      show (⟨0 + _, _⟩ : Position) = _
      rw [Nat.zero_add]
      rfl

/-- White space that is a mistake is an invalid character. -/
theorem Piece.cause_of_isWhiteSpace {c : Char} {rest : List Char} {cause : Cause}
    (hc : isSeparator c = false) (hwhite : isWhiteSpace c = true)
    (hcut : cut Rule.table (c :: rest) = .found (.mistake cause)) :
    cause = .invalidCharacter c := by
  rcases Fault.cases ((mistake_iff hc).mp hcut) with ⟨rfl, -⟩ | ⟨hdigit, -⟩ | ⟨-, hcause⟩
  · exact absurd hwhite (by decide)
  · -- the codes of the digits are in none of the ranges
    obtain ⟨hzero, hnine⟩ := Char.isDigit_iff_toNat.mp hdigit
    obtain ⟨range, hrange, hfirst, hlast⟩ := inTable_iff.mp hwhite
    have hapart : ∀ r ∈ whiteSpace, 57 < r.first ∨ r.last < 48 := by decide
    rcases hapart range hrange with hlt | hlt
    · exact absurd (Nat.lt_of_lt_of_le hlt hfirst) (Nat.not_lt.mpr hnine)
    · exact absurd (Nat.lt_of_le_of_lt hlast hlt) (Nat.not_lt.mpr hzero)
  · exact hcause

/-- **The arrow is under the character meant, if that is shown.** Where a source that is not too
long has its first mistake there is a character. In the last two lines of the report the head of the
arrow has a place, and the source line shows that character in this place, or it ends in front of
it. It does so only if the character, and whatever stands behind it on its line, is white space, and
then the mistake is that the character is invalid. -/
theorem arrow_points_at_mistake {source : String} {file? : Option String} {error : Error}
    (hsize : width source.toList ≤ maxOffset)
    (herror : tokenize source file? = .error error) :
    ∃ (front : List Char) (c : Char) (rest above : List Char) (k : Nat),
      source.toList = front ++ c :: rest ∧ width front = error.position.offset
        ∧ (error.report source.toList).render.toList =
          above ++ '\n' :: ((error.report source.toList).sourceLine ++
            '\n' :: ((error.report source.toList).arrowLine ++ ['\n']))
        ∧ '\n' ∉ (error.report source.toList).sourceLine
        ∧ '\n' ∉ (error.report source.toList).arrowLine
        ∧ (∀ j, (error.report source.toList).arrowLine[j]? = some '^' ↔ j = k)
        ∧ (error.report source.toList).sourceLine[k]? =
          (if (c :: rest.takeWhile (· != '\n')).all isWhiteSpace then none else some c)
        ∧ (isWhiteSpace c = true → error.cause = .invalidCharacter c) := by
  obtain ⟨front, c, rest, hsource, hc, hcut, hposition⟩ :=
    Session.exists_of_tokenize_eq_error hsize herror
  have hoffset : error.position.offset = width front := by rw [hposition]
  rw [hsource]
  obtain ⟨above, habove⟩ := Report.exists_render (error.report (front ++ c :: rest))
  obtain ⟨-, htext, hindent⟩ := @Error.report_of_offset error front rest c hc hoffset
  refine ⟨front, c, rest, above, _, rfl, hoffset.symm, habove,
    Report.newline_notMem_sourceLine (Error.newline_notMem_text hc hoffset),
    Report.newline_notMem_arrowLine _, Report.getElem?_arrowLine _, ?_,
    fun hwhite => Piece.cause_of_isWhiteSpace hc hwhite hcut⟩
  rw [Report.getElem?_sourceLine, htext, hindent, getElem?_trimEnd]

/-- A character that is white space and not the last of its line, behind a tab. -/
theorem arrow_points_at_mistake_space :
    width "\tx\u00a0y".toList ≤ maxOffset
      ∧ tokenize "\tx\u00a0y" none = .error ⟨.invalidCharacter '\u00a0', ⟨2, "shell"⟩⟩
      ∧ (Error.report ⟨.invalidCharacter '\u00a0', ⟨2, "shell"⟩⟩
          "\tx\u00a0y".toList).arrowLine[5]? = some '^'
      ∧ (Error.report ⟨.invalidCharacter '\u00a0', ⟨2, "shell"⟩⟩
          "\tx\u00a0y".toList).sourceLine[5]? = some '\u00a0' := by
  have hsize : width "\tx\u00a0y".toList ≤ maxOffset := by decide
  have herror : tokenize "\tx\u00a0y" none =
      .error ⟨.invalidCharacter '\u00a0', ⟨2, "shell"⟩⟩ := by decide +kernel
  obtain ⟨front, c, rest, above, k, hsource, hwidth, -, -, -, harrow, hshown, -⟩ :=
    arrow_points_at_mistake hsize herror
  have hhead : (Error.report ⟨.invalidCharacter '\u00a0', ⟨2, "shell"⟩⟩
      "\tx\u00a0y".toList).arrowLine[5]? = some '^' := by decide +kernel
  have hcut : splitAtByte? 2 "\tx\u00a0y".toList = some (['\t', 'x'], ['\u00a0', 'y']) := by decide
  have hsplit := (splitAtByte?_eq_some_iff.mpr ⟨hsource, hwidth⟩).symm.trans hcut
  obtain ⟨-, hbehind⟩ := Prod.mk.inj (Option.some.inj hsplit)
  obtain ⟨rfl, rfl⟩ := List.cons.inj hbehind
  refine ⟨hsize, herror, hhead, ?_⟩
  rw [(harrow 5).mp hhead, hshown]
  decide

/-- **The arrow can point past the line.** A character that is white space and no separator ends
the line: it is not shown, and the arrow is under nothing. -/
theorem arrow_points_past_line :
    tokenize "x\u00a0" none = .error ⟨.invalidCharacter '\u00a0', ⟨1, "shell"⟩⟩
      ∧ (Error.report ⟨.invalidCharacter '\u00a0', ⟨1, "shell"⟩⟩ "x\u00a0".toList).render =
        "Error: InvalidCharacter\n-> shell\n  |\n1 | x\n  | -^\n"
      ∧ "  | -^".toList[5]? = some '^' ∧ "1 | x".toList[5]? = none := by
  decide +kernel

end ScriptFront
