import ScriptFront.Proofs.Lookup
import ScriptFront.Proofs.Reports

/-!
# The layout of a report

The last three lines of a report are a bar, a source line and an arrow line (`LaidOut`). Their bars
stand in one column, because each has as much in front of its bar as the line number takes, and the
line number is all digits. What is shown of the source line is the line without its indentation and
without the white space at its end (`Shows`), so there is no newline in it.

All this holds for any error and any source. An error that was found in another source may have an
offset that is no place in this one, and then the report shows an empty first line. An error that
was found in this very source has its offset at a character of it, or at its beginning if the source
is too long (`Session.find?_ne_none_of_tokenize`).

Three things can go wrong when a report is made. The walk to the line may get stuck, the indentation
is counted in characters and cut off in bytes, and no text can be filled up to more than a greatest
width. The first two never do (`Error.reportByOffsets?_eq`), and the third only does for an arrow
line that is wider than that.
-/

namespace ScriptFront

open Text

namespace Text

/-- The lines behind a newline are the last lines of the text. -/
theorem lines_suffix (above rest : List Char) : lines rest <:+ lines (above ++ '\n' :: rest) := by
  induction above using line_induction with
  | last body hbody =>
      rw [lines_append_newline hbody]
      exact List.suffix_cons _ _
  | line body more hbody ih =>
      rw [List.append_assoc, List.cons_append, lines_append_newline hbody]
      exact ih.trans (List.suffix_cons _ _)

/-- Nothing is trimmed off a text that does not end with white space. -/
theorem trimEnd_eq_self {cs : List Char} (h : ∀ c ∈ cs.getLast?, isWhiteSpace c = false) :
    trimEnd cs = cs := by
  obtain ⟨tail, hcs, htail⟩ := exists_append_trimEnd cs
  cases hlast : tail.getLast? with
  | none =>
      rw [List.getLast?_eq_none_iff.mp hlast, List.append_nil] at hcs
      exact hcs.symm
  | some c =>
      have hend : cs.getLast? = some c := by
        rw [hcs, List.getLast?_append, hlast]
        rfl
      have hwhite := htail c (List.mem_of_getLast? hlast)
      rw [h c hend] at hwhite
      exact Bool.noConfusion hwhite

/-- Where each character takes one byte, a text has as many bytes as characters. -/
theorem width_eq_length {cs : List Char} (h : ∀ c ∈ cs, c.utf8Size = 1) :
    width cs = cs.length := by
  induction cs with
  | nil => rfl
  | cons c cs ih =>
      rw [width_cons, h c List.mem_cons_self, ih fun d hd => h d (List.mem_cons_of_mem c hd),
        List.length_cons, Nat.add_comm]

end Text

/-! ## Bars in one column -/

/-- The last three lines of a text are a bar line, a source line and an arrow line, laid out for a
line number, what is shown of the line and a number of dashes. Their first bars are in one column. -/
def LaidOut (rendered : List Char) (line : Nat) (text : List Char) (dashes : Nat) : Prop :=
  ∃ bar shown arrow : List Char,
    [bar ++ ['\n'], shown ++ ['\n'], arrow ++ ['\n']] <:+ lines rendered
      ∧ (∀ row ∈ [bar, shown, arrow],
        '\n' ∉ row ∧ row.idxOf? '|' = some ((Nat.toDigits 10 line).length + 1))
      ∧ bar = List.replicate ((Nat.toDigits 10 line).length + 1) ' ' ++ ['|']
      ∧ shown = Nat.toDigits 10 line ++ [' ', '|', ' '] ++ text
      ∧ arrow = bar ++ [' '] ++ List.replicate dashes '-' ++ ['^']

namespace Report

variable (report : Report)

/-- The first bar behind text without one is as far on as the text is long. -/
theorem idxOf?_bar {front : List Char} (h : '|' ∉ front) (back : List Char) :
    (front ++ '|' :: back).idxOf? '|' = some front.length := by
  induction front with
  | nil => exact List.idxOf?_cons ..
  | cons c front ih =>
      have hc : ¬ c = '|' := fun heq => h (heq ▸ List.mem_cons_self)
      rw [List.cons_append, List.idxOf?_cons, if_neg (by simpa using hc),
        ih fun hmem => h (List.mem_cons_of_mem c hmem)]
      rfl

/-- A line number has digits only. -/
theorem notMem_number {c : Char} (hc : c.isDigit = false) : c ∉ report.number := by
  intro hmem
  rw [Nat.isDigit_of_mem_toDigits (by decide) (by decide) hmem] at hc
  exact Bool.noConfusion hc

/-- The arrow line ends at its arrow head. -/
theorem length_arrowLine :
    report.arrowLine.length = report.number.length + 3 + report.indent + 1 := by
  simp only [arrowLine, barLine, List.length_append, List.length_replicate, List.length_singleton]

/-- **A report is laid out** for the line number, the text and the indent that it has. -/
theorem laidOut (htext : '\n' ∉ report.text) :
    LaidOut report.render.toList report.line report.text report.indent := by
  have hspaces : '|' ∉ List.replicate (report.number.length + 1) ' ' := by
    intro hmem
    exact absurd (List.eq_of_mem_replicate hmem) (by decide)
  have hnumber : '|' ∉ report.number ++ [' '] := by
    intro hmem
    rcases List.mem_append.mp hmem with hdigit | hspace
    · exact report.notMem_number (by decide) hdigit
    · exact absurd (List.mem_singleton.mp hspace) (by decide)
  -- each row as what it has in front of its bar, the bar, and what is behind that
  have hbar := idxOf?_bar hspaces []
  have hshown := idxOf?_bar hnumber (' ' :: report.text)
  have harrow := idxOf?_bar hspaces (' ' :: (List.replicate report.indent '-' ++ ['^']))
  have hbarRow : report.barLine = List.replicate (report.number.length + 1) ' ' ++ ['|'] := rfl
  have hshownRow : report.sourceLine = report.number ++ [' '] ++ '|' :: ' ' :: report.text := by
    simp only [sourceLine, List.append_assoc, List.cons_append, List.nil_append]
  have harrowRow : report.arrowLine = List.replicate (report.number.length + 1) ' ' ++
      '|' :: ' ' :: (List.replicate report.indent '-' ++ ['^']) := by
    simp only [arrowLine, barLine, List.append_assoc, List.cons_append, List.nil_append]
  rw [List.length_replicate, ← hbarRow] at hbar
  rw [List.length_append, List.length_singleton, ← hshownRow] at hshown
  rw [List.length_replicate, ← harrowRow] at harrow
  have hnewline : '\n' ∉ report.barLine := by
    rw [hbarRow]
    simp [List.mem_replicate]
  have hsource := newline_notMem_sourceLine htext
  refine ⟨report.barLine, report.sourceLine, report.arrowLine, ?_, ?_, rfl, rfl, rfl⟩
  · have hrows : Text.lines (report.barLine ++ '\n' :: (report.sourceLine ++
        '\n' :: (report.arrowLine ++ ['\n']))) =
        [report.barLine ++ ['\n'], report.sourceLine ++ ['\n'], report.arrowLine ++ ['\n']] := by
      rw [lines_append_newline hnewline, lines_append_newline hsource,
        lines_append_newline report.newline_notMem_arrowLine]
      rfl
    rw [← hrows, toList_render]
    exact (lines_suffix _ _).trans (lines_suffix _ _)
  · intro row hrow
    simp only [List.mem_cons, List.not_mem_nil, or_false] at hrow
    rcases hrow with rfl | rfl | rfl
    · exact ⟨hnewline, hbar⟩
    · exact ⟨hsource, hshown⟩
    · exact ⟨report.newline_notMem_arrowLine, harrow⟩

end Report

/-! ## What is shown of a line -/

/-- A text is shown of a line: the line without its indentation and the white space at its end. -/
structure Shows (line indentation text ending : List Char) : Prop where
  line_eq : line = indentation ++ (text ++ ending)
  /-- What is taken off in front are spaces and tabs. -/
  indent : ∀ c ∈ indentation, c = ' ' ∨ c = '\t'
  /-- None of them are left. -/
  head : ∀ c ∈ (text ++ ending).head?, c ≠ ' ' ∧ c ≠ '\t'
  /-- What is taken off behind is white space. -/
  white : ∀ c ∈ ending, isWhiteSpace c = true
  /-- None of it is left. -/
  last : ∀ c ∈ text.getLast?, isWhiteSpace c = false
  /-- It is on one line. -/
  newline_notMem : '\n' ∉ text

namespace Location

variable {source : String} {offset : Nat} {location : Location}

/-- The line of a location has a newline at its end only. -/
theorem exists_text_of_find? (h : find? source.toList offset = some location) :
    ∃ body ending, location.text = body ++ ending ∧ '\n' ∉ body
      ∧ (ending = [] ∨ ending = ['\n']) := by
  obtain ⟨front, back, -, -, rfl⟩ := exists_of_find? h
  obtain ⟨ending, hfirst, hending⟩ := exists_firstLine back
  refine ⟨lastLine front ++ back.takeWhile (· != '\n'), ending, ?_, ?_, hending⟩
  · rw [List.append_assoc, ← hfirst]
  · intro hmem
    rcases List.mem_append.mp hmem with hfront | hback
    · exact notMem_lastLine front hfront
    · exact absurd (Rule.forall_mem_takeWhile (· != '\n') back '\n' hback) (by decide)

/-- **What a report shows of the line of a location.** -/
theorem exists_shows (h : find? source.toList offset = some location) :
    ∃ ending, Shows location.text (location.text.takeWhile Report.isIndent)
      (trimEnd (location.text.dropWhile Report.isIndent)) ending := by
  obtain ⟨body, newline, htext, hbody, hnewline⟩ := exists_text_of_find? h
  obtain ⟨ending, hline, hwhite⟩ :=
    exists_append_trimEnd (location.text.dropWhile Report.isIndent)
  refine ⟨ending, ?_, ?_, ?_, hwhite, getLast?_trimEnd _, ?_⟩
  · rw [← hline, List.takeWhile_append_dropWhile]
  · intro c hc
    have hindent := Rule.forall_mem_takeWhile Report.isIndent _ c hc
    rcases Bool.or_eq_true_iff.mp hindent with hspace | htab
    · exact Or.inl (eq_of_beq hspace)
    · exact Or.inr (eq_of_beq htab)
  · intro c hc
    rw [← hline] at hc
    have hindent := List.head?_dropWhile_not Report.isIndent location.text
    rw [Option.mem_def.mp hc] at hindent
    dsimp only at hindent
    constructor
    · rintro rfl
      exact Bool.noConfusion hindent
    · rintro rfl
      exact Bool.noConfusion hindent
  · -- the newline at the end is white space, and nothing else is behind the rest of the line
    have htrim : trimEnd newline = [] := by rcases hnewline with rfl | rfl <;> decide
    intro hmem
    rw [htext, List.dropWhile_append] at hmem
    split at hmem
    · have hdrop : trimEnd (newline.dropWhile Report.isIndent) = [] := by
        rcases hnewline with rfl | rfl <;> decide
      rw [hdrop] at hmem
      exact absurd hmem (by simp)
    · rw [trimEnd_append_of_eq_nil htrim] at hmem
      exact hbody ((List.dropWhile_sublist _).subset (mem_of_mem_trimEnd hmem))

end Location

/-- Only one text is shown of a line. -/
theorem Shows.unique {line indentation text ending : List Char}
    (h : Shows line indentation text ending) :
    indentation = line.takeWhile Report.isIndent
      ∧ text = trimEnd (line.dropWhile Report.isIndent) := by
  have hindent : ∀ c ∈ indentation, Report.isIndent c = true := by
    intro c hc
    rcases h.indent c hc with rfl | rfl <;> rfl
  have hrest : (text ++ ending).takeWhile Report.isIndent = []
      ∧ (text ++ ending).dropWhile Report.isIndent = text ++ ending := by
    cases hshown : text ++ ending with
    | nil => exact ⟨rfl, rfl⟩
    | cons c cs =>
        obtain ⟨hspace, htab⟩ := h.head c (by rw [hshown]; rfl)
        have hc : ¬ Report.isIndent c = true := by simp [Report.isIndent, hspace, htab]
        exact ⟨List.takeWhile_cons_of_neg hc, List.dropWhile_cons_of_neg hc⟩
  rw [h.line_eq, List.takeWhile_append_of_pos hindent, List.dropWhile_append_of_pos hindent,
    hrest.1, hrest.2, List.append_nil,
    trimEnd_append_of_eq_nil (trimEnd_eq_nil_iff.mpr (List.all_eq_true.mpr h.white))]
  exact ⟨rfl, (trimEnd_eq_self h.last).symm⟩

/-! ## A report made by offsets -/

/-- The greatest width that a text can be filled up to. -/
def maxWidth : Nat := 65535

/-- A text filled up to a width from in front, if that is not too wide. -/
def padStart? (fill : Char) (size : Nat) (text : List Char) : Option (List Char) :=
  if size ≤ maxWidth then some (List.replicate (size - text.length) fill ++ text) else none

/-- A line without its indentation, and the number of characters of that, which is taken for the
offset to cut at. -/
def cutIndent? (line : List Char) : Option (List Char × Nat) :=
  (splitAtByte? (line.takeWhile Report.isIndent).length line).map fun (_, back) =>
    (back, (line.takeWhile Report.isIndent).length)

/-- The location that a report is made for, unless the walk to it got stuck. -/
def Lookup.location? : Lookup → Option Location
  | .stuck => none
  | .nowhere => some ⟨1, [], 0⟩
  | .found location => some location

/-- The report of an error against a source, made by offsets. -/
def Error.reportByOffsets? (error : Error) (source : String) : Option Report :=
  (lookup source error.position.offset).location?.bind fun location =>
    (cutIndent? location.text).map fun (back, removed) =>
      { error.report source.toList with
        line := location.line
        text := trimEnd back
        indent := location.column - removed }

/-- A report as text, with the bars and the arrow filled up from in front. -/
def Report.renderPadded? (report : Report) : Option String :=
  (padStart? ' ' (report.number.length + 2) ['|']).bind fun bar =>
    (padStart? '-' (report.indent + 1) ['^']).map fun arrow =>
      String.ofList ([("Error: " ++ report.heading).toList, ("-> " ++ report.file).toList, bar,
        report.sourceLine, bar ++ [' '] ++ arrow].flatMap (· ++ ['\n']))

/-- Each character of the indentation has one byte, so it is cut off where it ends. -/
theorem cutIndent?_eq (line : List Char) :
    cutIndent? line =
      some (line.dropWhile Report.isIndent, (line.takeWhile Report.isIndent).length) := by
  have hone : ∀ c ∈ line.takeWhile Report.isIndent, c.utf8Size = 1 := by
    intro c hc
    rcases Bool.or_eq_true_iff.mp (Rule.forall_mem_takeWhile Report.isIndent line c hc) with
      hspace | htab
    · rw [eq_of_beq hspace]
      rfl
    · rw [eq_of_beq htab]
      rfl
  have hcut := splitAtByte?_eq_some_iff.mpr
    ⟨(List.takeWhile_append_dropWhile (p := Report.isIndent) (l := line)).symm,
      width_eq_length hone⟩
  unfold cutIndent?
  rw [hcut]
  rfl

/-- **Making a report by offsets never goes wrong**, whatever the error and the source. -/
theorem Error.reportByOffsets?_eq (error : Error) (source : String) :
    error.reportByOffsets? source = some (error.report source.toList) := by
  have hlocation : (lookup source error.position.offset).location? =
      some ((Location.find? source.toList error.position.offset).getD ⟨1, [], 0⟩) := by
    rw [lookup_eq]
    cases Location.find? source.toList error.position.offset with
    | none => rfl
    | some location => rfl
  unfold reportByOffsets?
  rw [hlocation, Option.bind_some, cutIndent?_eq]
  rfl

/-- Filling up comes to the same as long as it is possible. -/
theorem Report.renderPadded?_eq {report : Report} (hbar : report.number.length + 2 ≤ maxWidth)
    (harrow : report.indent + 1 ≤ maxWidth) : report.renderPadded? = some report.render := by
  unfold renderPadded? padStart?
  rw [if_pos hbar, if_pos harrow, Option.bind_some, Option.map_some, render, Report.lines,
    arrowLine, ← List.append_assoc]
  rfl

/-! ## Where the offset is from -/

/-- **The error of a source has a location in it.** -/
theorem Session.find?_ne_none_of_tokenize {source : String} {file? : Option String} {error : Error}
    (h : tokenize source file? = .error error) :
    Location.find? source.toList error.position.offset ≠ none := by
  rw [Ne, Location.find?_eq_none_iff, not_not, isBoundary_iff]
  rcases Nat.lt_or_ge maxOffset (width source.toList) with hlt | hsize
  · rw [tokenize_of_oversize file? hlt] at h
    injection h with h
    rw [← h]
    exact ⟨[], source.toList, rfl, rfl⟩
  · obtain ⟨front, c, rest, hsource, -, -, hposition⟩ := exists_of_tokenize_eq_error hsize h
    exact ⟨front, c :: rest, hsource, by rw [hposition]⟩

/-- **The layout of a report.** For any error and any source a report can be made, if its arrow line
is not too wide, and its last three lines are laid out. If the offset has a location in the source,
they are for its line number and what is shown of its line, and there are as many dashes as the
location has characters in front of it behind the indentation. If it has none, they are for the
number one and no text, without dashes. The error of the source itself has one. -/
theorem Error.report_layout (error : Error) (source : String) :
    ((error.report source.toList).arrowLine.length ≤ maxWidth →
        (error.reportByOffsets? source).bind Report.renderPadded? =
          some (error.report source.toList).render)
      ∧ (match Location.find? source.toList error.position.offset with
        | some location => ∃ indentation text ending,
            Shows location.text indentation text ending
              ∧ LaidOut (error.report source.toList).render.toList location.line text
                (location.column - indentation.length)
        | none => LaidOut (error.report source.toList).render.toList 1 [] 0)
      ∧ ∀ file?, tokenize source file? = .error error →
        Location.find? source.toList error.position.offset ≠ none := by
  refine ⟨?_, ?_, fun file? h => Session.find?_ne_none_of_tokenize h⟩
  · intro hwidth
    rw [Report.length_arrowLine] at hwidth
    rw [reportByOffsets?_eq, Option.bind_some, Report.renderPadded?_eq (by omega) (by omega)]
  · have hlaid : ∀ location,
        (Location.find? source.toList error.position.offset).getD ⟨1, [], 0⟩ = location →
        '\n' ∉ trimEnd (location.text.dropWhile Report.isIndent) →
        LaidOut (error.report source.toList).render.toList location.line
          (trimEnd (location.text.dropWhile Report.isIndent))
          (location.column - (location.text.takeWhile Report.isIndent).length) := by
      rintro location rfl hnewline
      exact Report.laidOut _ hnewline
    cases hfind : Location.find? source.toList error.position.offset with
    | none =>
        rw [hfind] at hlaid
        exact hlaid _ rfl (by decide)
    | some location =>
        obtain ⟨ending, hshows⟩ := Location.exists_shows hfind
        rw [hfind] at hlaid
        exact ⟨_, _, ending, hshows, hlaid _ rfl hshows.newline_notMem⟩

/-- A mistake behind a string with an accented letter, on a line with a tab in front and a space
behind, and the same mistake in an empty source. -/
theorem Error.report_layout_accent :
    tokenize "a\n\t\"é\"@ \n" none = .error ⟨.invalidCharacter '@', ⟨7, "shell"⟩⟩
      ∧ Location.find? "a\n\t\"é\"@ \n".toList 7 ≠ none
      ∧ (Error.reportByOffsets? ⟨.invalidCharacter '@', ⟨7, "shell"⟩⟩ "a\n\t\"é\"@ \n").bind
          Report.renderPadded? =
        some "Error: InvalidCharacter\n-> shell\n  |\n2 | \"é\"@\n  | ---^\n"
      ∧ LaidOut "Error: InvalidCharacter\n-> shell\n  |\n2 | \"é\"@\n  | ---^\n".toList 2
        "\"é\"@".toList 3
      ∧ LaidOut "Error: InvalidCharacter\n-> shell\n  |\n1 | \n  | ^\n".toList 1 [] 0 := by
  have herror : tokenize "a\n\t\"é\"@ \n" none =
      .error ⟨.invalidCharacter '@', ⟨7, "shell"⟩⟩ := by decide +kernel
  obtain ⟨hmade, hlaid, hfound⟩ :=
    report_layout ⟨.invalidCharacter '@', ⟨7, "shell"⟩⟩ "a\n\t\"é\"@ \n"
  obtain ⟨-, hfallback, -⟩ := report_layout ⟨.invalidCharacter '@', ⟨7, "shell"⟩⟩ ""
  have hfind : Location.find? "a\n\t\"é\"@ \n".toList 7 = some ⟨2, "\t\"é\"@ \n".toList, 4⟩ := by
    decide +kernel
  have hrender :
      (Error.report ⟨.invalidCharacter '@', ⟨7, "shell"⟩⟩ "a\n\t\"é\"@ \n".toList).render =
        "Error: InvalidCharacter\n-> shell\n  |\n2 | \"é\"@\n  | ---^\n" := by decide +kernel
  have hrender' : (Error.report ⟨.invalidCharacter '@', ⟨7, "shell"⟩⟩ "".toList).render =
      "Error: InvalidCharacter\n-> shell\n  |\n1 | \n  | ^\n" := by decide +kernel
  dsimp only at hlaid
  rw [hrender] at hmade hlaid
  rw [hfind] at hlaid
  rw [hrender'] at hfallback
  obtain ⟨indentation, text, ending, hshows, hlaid⟩ := hlaid
  obtain ⟨rfl, rfl⟩ := hshows.unique
  exact ⟨herror, hfound none herror, hmade (by decide +kernel), hlaid, hfallback⟩

end ScriptFront
