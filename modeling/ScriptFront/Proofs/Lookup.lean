import ScriptFront.Proofs.Boundaries
import ScriptFront.Proofs.Locations

/-!
# Looking a place up

The location of an offset is defined by the lines of the text. This file takes the text for a series
of bytes instead, some of which are newlines (`NewlineAt`). The line on which an offset lies begins
behind the last newline in front of it and ends behind the first newline that is not in front of it
(`BeginsLine`, `EndsLine`), and where there is no such newline it begins or ends with the text. The
location is made of what stands between these offsets (`Location.find?_counts`). Nothing has to be
said of the end of the text, which is an offset like any other.

A program that has the text as bytes does have to tell cases apart. It walks over the lines with the
offset at which each begins, and cuts the one that has the offset in it. Only the end of the text is
on none of them. For that there is a number too many, and without a final newline the last line has
to be searched for from behind (`lookup`). It finds the same in all sources and at all offsets, and
whatever it cuts it cuts between characters (`lookup_eq`).
-/

namespace ScriptFront

open Text

/-! ## Newlines by their offsets -/

/-- The byte at an offset of a text is a newline. -/
def NewlineAt (text : List Char) (offset : Nat) : Prop :=
  ∃ front back, text = front ++ '\n' :: back ∧ width front = offset

/-- The line on which an offset lies begins behind the last newline in front of the offset, or with
the text if there is none. -/
def BeginsLine (text : List Char) (offset start : Nat) : Prop :=
  (start = 0 ∧ ∀ i, NewlineAt text i → offset ≤ i)
    ∨ ∃ i, start = i + 1 ∧ NewlineAt text i ∧ i < offset
      ∧ ∀ j, NewlineAt text j → j < offset → j ≤ i

/-- It ends behind the first newline at the offset or behind it, or with the text if there is
none. -/
def EndsLine (text : List Char) (offset stop : Nat) : Prop :=
  (stop = width text ∧ ∀ i, NewlineAt text i → i < offset)
    ∨ ∃ i, stop = i + 1 ∧ NewlineAt text i ∧ offset ≤ i
      ∧ ∀ j, NewlineAt text j → offset ≤ j → i ≤ j

/-- A newline of two texts put together is one of the first or one of the second. -/
theorem newlineAt_append_iff {front back : List Char} {offset : Nat} :
    NewlineAt (front ++ back) offset ↔
      NewlineAt front offset ∨ ∃ i, NewlineAt back i ∧ offset = width front + i := by
  constructor
  · intro h
    obtain ⟨f, b, htext, rfl⟩ := h
    rcases List.append_eq_append_iff.mp htext with ⟨more, rfl, rfl⟩ | ⟨more, rfl, hback⟩
    · exact Or.inr ⟨width more, ⟨more, b, rfl, rfl⟩, width_append _ _⟩
    · cases more with
      | nil => exact Or.inr ⟨0, ⟨[], b, hback.symm, rfl⟩, by rw [List.append_nil]; rfl⟩
      | cons c more =>
          injection hback with hc _
          exact Or.inl ⟨f, more, by rw [← hc], rfl⟩
  · intro h
    rcases h with ⟨f, b, rfl, rfl⟩ | ⟨i, ⟨f, b, rfl, rfl⟩, rfl⟩
    · exact ⟨f, b ++ back, by rw [List.append_assoc, List.cons_append], rfl⟩
    · exact ⟨front ++ f, b, (List.append_assoc _ _ _).symm, width_append _ _⟩

/-- A text without newlines has none at any offset. -/
theorem not_newlineAt {cs : List Char} (h : '\n' ∉ cs) (offset : Nat) : ¬ NewlineAt cs offset := by
  rintro ⟨front, back, rfl, -⟩
  exact h (List.mem_append_right _ List.mem_cons_self)

/-- A newline lies in the text. -/
theorem NewlineAt.lt_width {cs : List Char} {offset : Nat} (h : NewlineAt cs offset) :
    offset < width cs := by
  obtain ⟨front, back, rfl, rfl⟩ := h
  have hpos := '\n'.utf8Size_pos
  rw [width_append, width_cons]
  omega

/-- The offset of the last newline in a text, if there is one. -/
def lastNewline? : List Char → Option Nat
  | [] => none
  | c :: cs =>
      match lastNewline? cs with
      | some offset => some (c.utf8Size + offset)
      | none => if c = '\n' then some 0 else none

theorem lastNewline?_of_notMem {cs : List Char} (h : '\n' ∉ cs) : lastNewline? cs = none := by
  induction cs with
  | nil => rfl
  | cons c cs ih =>
      have hc : ¬ c = '\n' := fun heq => h (heq ▸ List.mem_cons_self)
      rw [lastNewline?, ih fun hmem => h (List.mem_cons_of_mem c hmem)]
      exact if_neg hc

/-- Behind a newline the search goes on. -/
theorem lastNewline?_append_newline (body rest : List Char) :
    lastNewline? (body ++ '\n' :: rest) =
      some (width body + (lastNewline? rest).elim 0 (1 + ·)) := by
  induction body with
  | nil =>
      rw [List.nil_append, lastNewline?, width_nil, Nat.zero_add]
      cases lastNewline? rest with
      | none => rfl
      | some offset => rfl
  | cons c body ih =>
      rw [List.cons_append, lastNewline?, ih, width_cons, Nat.add_assoc]

/-- **The last line stands behind the last newline**, or it is the whole text. -/
theorem exists_lastLine (cs : List Char) :
    ∃ head, cs = head ++ lastLine cs
      ∧ (head = [] ∧ lastNewline? cs = none
        ∨ ∃ body, head = body ++ ['\n'] ∧ lastNewline? cs = some (width body)) := by
  induction cs using line_induction with
  | last body hbody =>
      rw [lastLine_of_notMem hbody, lastNewline?_of_notMem hbody]
      exact ⟨[], rfl, Or.inl ⟨rfl, rfl⟩⟩
  | line body rest _ ih =>
      obtain ⟨head, hrest, hhead⟩ := ih
      rw [lastLine_append_newline, lastNewline?_append_newline]
      refine ⟨body ++ '\n' :: head, ?_, Or.inr ?_⟩
      · rw [List.append_assoc, List.cons_append, ← hrest]
      · rcases hhead with ⟨rfl, hnone⟩ | ⟨inner, rfl, hsome⟩
        · rw [hnone]
          exact ⟨body, rfl, rfl⟩
        · rw [hsome]
          refine ⟨body ++ '\n' :: inner, by simp, ?_⟩
          rw [width_append, width_cons]
          rfl

/-- The last line begins the line of the place behind it. -/
theorem beginsLine_of_lastLine {front head : List Char} (hfront : front = head ++ lastLine front)
    (hhead : head = [] ∨ ∃ body, head = body ++ ['\n']) (back : List Char) :
    BeginsLine (front ++ back) (width front) (width head) := by
  have hwidth := congrArg width hfront
  rw [width_append] at hwidth
  -- a newline of the whole text stands in the head or behind the place
  have hnewline : ∀ i, NewlineAt (front ++ back) i → NewlineAt head i ∨ width front ≤ i := by
    intro i hi
    rcases newlineAt_append_iff.mp hi with hin | ⟨j, -, rfl⟩
    · rw [hfront] at hin
      rcases newlineAt_append_iff.mp hin with hin | ⟨j, hin, -⟩
      · exact Or.inl hin
      · exact absurd hin (not_newlineAt (notMem_lastLine front) j)
    · exact Or.inr (Nat.le_add_right _ _)
  rcases hhead with rfl | ⟨body, rfl⟩
  · refine Or.inl ⟨rfl, ?_⟩
    intro i hi
    rcases hnewline i hi with hin | hle
    · exact absurd hin (not_newlineAt (by simp) i)
    · exact hle
  · have hbody : width (body ++ ['\n']) = width body + 1 := width_append _ _
    refine Or.inr ⟨width body, hbody, ?_, by omega, ?_⟩
    · refine ⟨body, lastLine front ++ back, ?_, rfl⟩
      rw [List.append_cons, ← List.append_assoc, ← hfront]
    · intro j hj hlt
      rcases hnewline j hj with hin | hle
      · have := hin.lt_width
        omega
      · omega

/-- And the first line behind a place ends it. -/
theorem endsLine_of_firstLine (front back : List Char) :
    EndsLine (front ++ back) (width front) (width front + width (firstLine back)) := by
  have hnewline : ∀ i, NewlineAt (front ++ back) i → width front ≤ i →
      ∃ j, NewlineAt back j ∧ i = width front + j := by
    intro i hi hle
    rcases newlineAt_append_iff.mp hi with hin | hin
    · have := hin.lt_width
      omega
    · exact hin
  by_cases hmem : '\n' ∈ back
  · obtain ⟨body, rest, rfl, hbody⟩ := List.eq_append_cons_of_mem hmem
    have hfirst : width (firstLine (body ++ '\n' :: rest)) = width body + 1 := by
      rw [(firstLine_append hbody _).1, width_append]
      rfl
    rw [hfirst]
    refine Or.inr ⟨width front + width body, (Nat.add_assoc _ _ _).symm, ?_, by omega, ?_⟩
    · exact newlineAt_append_iff.mpr (Or.inr ⟨width body, ⟨body, rest, rfl, rfl⟩, rfl⟩)
    · intro j hj hle
      obtain ⟨k, hk, rfl⟩ := hnewline j hj hle
      rcases newlineAt_append_iff.mp hk with hin | ⟨m, -, rfl⟩
      · exact absurd hin (not_newlineAt hbody k)
      · omega
  · have hfirst := (firstLine_append hmem []).1
    rw [List.append_nil, firstLine, List.append_nil] at hfirst
    rw [hfirst]
    refine Or.inl ⟨(width_append _ _).symm, ?_⟩
    intro i hi
    refine Nat.lt_of_not_le fun hle => ?_
    obtain ⟨j, hj, -⟩ := hnewline i hi hle
    exact not_newlineAt hmem j hj

/-! ## Where there is no location -/

namespace Location

variable {source : String} {offset : Nat}

/-- A location among some lines is that of a place in them. -/
theorem exists_of_among? {lines : List (List Char)} {number : Nat} {location : Location}
    (h : among? number offset lines = some location) :
    ∃ front back, lines.flatten = front ++ back ∧ width front = offset := by
  induction lines generalizing number offset with
  | nil =>
      rw [among?, Option.ite_none_right_eq_some] at h
      exact ⟨[], [], rfl, h.1.symm⟩
  | cons line rest ih =>
      rw [among?] at h
      split at h
      · obtain ⟨⟨front, back⟩, hsplit, -⟩ := Option.map_eq_some_iff.mp h
        obtain ⟨rfl, hwidth⟩ := splitAtByte?_eq_some_iff.mp hsplit
        exact ⟨front, back ++ rest.flatten, by simp, hwidth⟩
      · rename_i hbehind
        obtain ⟨front, back, hrest, hwidth⟩ := ih h
        refine ⟨line ++ front, back, by rw [List.flatten_cons, hrest, List.append_assoc], ?_⟩
        rw [width_append]
        omega

/-- So it counts what stands in front of a place of the text. -/
theorem exists_of_find? {text : List Char} {location : Location}
    (h : find? text offset = some location) :
    ∃ front back, text = front ++ back ∧ width front = offset
      ∧ location = ⟨1 + front.count '\n', lastLine front ++ firstLine back,
        (lastLine front).length⟩ := by
  obtain ⟨front, back, htext, rfl⟩ := exists_of_among? h
  rw [flatten_lines] at htext
  rw [htext, find?_width_append] at h
  injection h with h
  exact ⟨front, back, htext, rfl, h.symm⟩

/-- **An offset has a location just if it is a boundary.** -/
theorem find?_eq_none_iff : find? source.toList offset = none ↔ ¬ IsBoundary source offset := by
  constructor
  · intro h hboundary
    obtain ⟨front, back, htext, rfl⟩ := isBoundary_iff.mp hboundary
    rw [htext, find?_width_append] at h
    exact absurd h (by simp)
  · intro h
    cases hfind : find? source.toList offset with
    | none => rfl
    | some location =>
        obtain ⟨front, back, htext, hwidth, -⟩ := exists_of_find? hfind
        exact absurd (isBoundary_iff.mpr ⟨front, back, htext, hwidth⟩) h

end Location

/-! ## A walk by offsets -/

/-- What looking an offset up comes to. -/
inductive Lookup where
  /-- A text was to be cut at an offset that is no place in it. -/
  | stuck
  /-- The offset is no place in the source. -/
  | nowhere
  | found (location : Location)
deriving DecidableEq, Repr

/-- The location of the end of a text, given one more than the number of its last line. -/
def lookupEnd (text : List Char) (number : Nat) : Lookup :=
  if text = [] ∨ text.getLast? = some '\n' then .found ⟨number, [], 0⟩
  else
    (splitAtByte? ((lastNewline? text).elim 0 (· + 1)) text).elim .stuck fun (_, line) =>
      .found ⟨number - 1, line, line.length⟩

/-- Walk over lines of a text, of which the first has a number and begins at an offset, up to the
one that has the offset asked for in it. -/
def lookupAmong (text : List Char) (offset number start : Nat) : List (List Char) → Lookup
  | [] => lookupEnd text number
  | line :: rest =>
      if start ≤ offset ∧ offset < start + width line then
        (splitAtByte? (offset - start) line).elim .stuck fun (front, _) =>
          .found ⟨number, line, front.length⟩
      else lookupAmong text offset (number + 1) (start + width line) rest

/-- Look an offset up in a source. -/
def lookup (source : String) (offset : Nat) : Lookup :=
  if width source.toList < offset ∨ ¬ IsBoundary source offset then .nowhere
  else lookupAmong source.toList offset 1 0 (lines source.toList)

/-- Short of the end of the lines, the walk finds what is among them. -/
theorem lookupAmong_eq {text : List Char} {lines : List (List Char)} {offset number start : Nat}
    (hstart : start ≤ offset) (hlt : offset < start + width lines.flatten) :
    lookupAmong text offset number start lines =
      (Location.among? number (offset - start) lines).elim .stuck .found := by
  induction lines generalizing number start with
  | nil =>
      rw [List.flatten_nil, width_nil] at hlt
      omega
  | cons line rest ih =>
      rw [List.flatten_cons, width_append] at hlt
      rw [lookupAmong, Location.among?]
      by_cases hin : offset < start + width line
      · rw [if_pos ⟨hstart, hin⟩, if_pos (Or.inl (by omega))]
        cases splitAtByte? (offset - start) line <;> rfl
      · have hbehind : ¬ (offset - start < width line
            ∨ offset - start = width line ∧ Location.endsOpen line rest = true) := by
          rintro (hin' | ⟨heq, hopen⟩)
          · omega
          · -- only the last line ends open, and the offset is short of its end
            have hnil := List.isEmpty_iff.mp (Bool.and_eq_true_iff.mp hopen).1
            rw [hnil, List.flatten_nil, width_nil] at hlt
            omega
        rw [if_neg fun h => hin h.2, if_neg hbehind, ih (by omega) (by omega), Nat.sub_sub]

/-- At their end it has passed them all. -/
theorem lookupAmong_of_le {text : List Char} {lines : List (List Char)} {offset number start : Nat}
    (h : start + width lines.flatten ≤ offset) :
    lookupAmong text offset number start lines = lookupEnd text (number + lines.length) := by
  induction lines generalizing number start with
  | nil => rfl
  | cons line rest ih =>
      rw [List.flatten_cons, width_append] at h
      rw [lookupAmong, if_neg (by omega), ih (by omega), List.length_cons, Nat.add_assoc,
        Nat.add_comm 1]

/-- The last line is empty just if no text is behind the last newline. -/
theorem lastLine_eq_nil_iff {cs : List Char} :
    lastLine cs = [] ↔ cs = [] ∨ cs.getLast? = some '\n' := by
  obtain ⟨head, hcs, hhead⟩ := exists_lastLine cs
  constructor
  · intro hnil
    rw [hnil, List.append_nil] at hcs
    rcases hhead with ⟨hempty, -⟩ | ⟨body, hbody, -⟩
    · exact Or.inl (hcs.trans hempty)
    · exact Or.inr (by rw [hcs, hbody, List.getLast?_concat])
  · rintro (rfl | hlast)
    · rfl
    · cases hline : (lastLine cs).getLast? with
      | none => exact List.getLast?_eq_none_iff.mp hline
      | some c =>
          rw [hcs, List.getLast?_append, hline] at hlast
          injection hlast with hc
          subst hc
          exact absurd (List.mem_of_getLast? hline) (notMem_lastLine cs)

/-- There are as many lines as newlines, and one more if the text does not end with one. -/
theorem length_lines (cs : List Char) :
    (lines cs).length = cs.count '\n' + if lastLine cs = [] then 0 else 1 := by
  induction cs using line_induction with
  | last body hbody =>
      rw [lastLine_of_notMem hbody, List.count_eq_zero.mpr hbody]
      cases body with
      | nil => rfl
      | cons c body =>
          obtain ⟨-, hafter⟩ := firstLine_append hbody []
          rw [List.append_nil] at hafter
          rw [lines_eq_cons (by simp), hafter, if_neg (by simp)]
          rfl
  | line body rest hbody ih =>
      rw [lines_append_newline hbody, lastLine_append_newline, List.count_append,
        List.count_eq_zero.mpr hbody, List.count_cons_self, List.length_cons, ih]
      omega

/-- **The end of a text is behind its last line**, which is empty if a newline ends the text. -/
theorem lookupEnd_eq (text : List Char) :
    lookupEnd text (1 + (lines text).length) =
      .found ⟨1 + text.count '\n', lastLine text, (lastLine text).length⟩ := by
  have hlength := length_lines text
  unfold lookupEnd
  by_cases hnil : lastLine text = []
  · rw [if_pos hnil] at hlength
    rw [if_pos (lastLine_eq_nil_iff.mp hnil), hlength, hnil]
    rfl
  · rw [if_neg hnil] at hlength
    obtain ⟨head, htext, hhead⟩ := exists_lastLine text
    have hoffset : (lastNewline? text).elim 0 (· + 1) = width head := by
      rcases hhead with ⟨rfl, hnone⟩ | ⟨body, rfl, hsome⟩
      · rw [hnone]
        rfl
      · rw [hsome, width_append]
        rfl
    have hsplit := splitAtByte?_eq_some_iff.mpr ⟨htext, rfl⟩
    rw [if_neg fun h => hnil (lastLine_eq_nil_iff.mpr h), hoffset, hsplit, hlength]
    rfl

/-- **Looking an offset up finds its location**, and never gets stuck. -/
theorem lookup_eq (source : String) (offset : Nat) :
    lookup source offset = (Location.find? source.toList offset).elim .nowhere .found := by
  unfold lookup
  by_cases hboundary : IsBoundary source offset
  · obtain ⟨front, back, htext, rfl⟩ := isBoundary_iff.mp hboundary
    have hle := hboundary.le_width
    rw [if_neg (by rintro (hlt | hno); omega; exact hno hboundary)]
    have hfind := Location.find?_width_append front back
    rw [← htext] at hfind
    by_cases hend : width front < width source.toList
    · have hwidth : width front < 0 + width (lines source.toList).flatten := by
        rw [flatten_lines]
        omega
      have hamong : Location.among? 1 (width front - 0) (lines source.toList) = _ := hfind
      rw [lookupAmong_eq (Nat.zero_le _) hwidth, hamong, hfind]
      rfl
    · have hback : back = [] := by
        rw [htext, width_append] at hend
        exact width_eq_zero_iff.mp (by omega)
      subst hback
      rw [List.append_nil] at htext
      rw [lookupAmong_of_le (by rw [flatten_lines]; omega), lookupEnd_eq, hfind, htext, firstLine,
        List.append_nil]
      rfl
  · rw [if_pos (Or.inr hboundary), Location.find?_eq_none_iff.mpr hboundary]
    rfl

namespace Location

/-- **What the location of an offset is.** An offset has none just if it lies past the end of the
source or inside a character. Otherwise the line number is one more than the newlines in front of
the offset, the text is that of the line on which it lies, from where the line begins to where it
ends, and the column is the number of characters from where the line begins to the offset. A walk
over the lines by offsets finds this location, and is never stuck. -/
theorem find?_counts (source : String) (offset : Nat) :
    (find? source.toList offset = none ↔
        width source.toList < offset ∨ ¬ IsBoundary source offset)
      ∧ (IsBoundary source offset → ∃ start stop read line before,
        BeginsLine source.toList offset start ∧ EndsLine source.toList offset stop
          ∧ slice? 0 offset source.toList = some read
          ∧ slice? start stop source.toList = some line
          ∧ slice? start offset source.toList = some before
          ∧ find? source.toList offset = some ⟨1 + read.count '\n', line, before.length⟩)
      ∧ lookup source offset = (find? source.toList offset).elim .nowhere .found := by
  refine ⟨?_, ?_, lookup_eq source offset⟩
  · rw [find?_eq_none_iff]
    constructor
    · exact Or.inr
    · rintro (hlt | h) hboundary
      · have hle := hboundary.le_width
        omega
      · exact h hboundary
  · intro hboundary
    obtain ⟨front, back, htext, rfl⟩ := isBoundary_iff.mp hboundary
    obtain ⟨head, hfront, hhead⟩ := exists_lastLine front
    have hbegins := beginsLine_of_lastLine hfront
      (hhead.imp (fun h => h.1) fun ⟨body, h⟩ => ⟨body, h.1⟩) back
    have hends := endsLine_of_firstLine front back
    rw [htext]
    -- the text is what is in front of the line, the two parts of the line, and what is behind it
    have hparts : front ++ back =
        head ++ (lastLine front ++ (firstLine back ++ afterLine back)) := by
      rw [firstLine_append_afterLine, ← List.append_assoc, ← hfront]
    have hread := slice?_append [] front back
    have hline := slice?_append head (lastLine front ++ firstLine back) (afterLine back)
    have hbefore := slice?_append head (lastLine front) (firstLine back ++ afterLine back)
    have hoffset : width head + width (lastLine front) = width front := by
      rw [← width_append, ← hfront]
    rw [List.append_assoc, ← hparts, width_append, ← Nat.add_assoc, hoffset] at hline
    rw [← hparts, hoffset] at hbefore
    rw [width_nil, Nat.zero_add, List.nil_append] at hread
    exact ⟨_, _, front, _, _, hbegins, hends, hread, hline, hbefore, find?_width_append front back⟩

/-- The end of a text that no newline ends, and an offset inside its last character. -/
theorem find?_counts_accent :
    IsBoundary "a\né" 4
      ∧ (∃ start stop read line before,
        BeginsLine "a\né".toList 4 start ∧ EndsLine "a\né".toList 4 stop
          ∧ slice? 0 4 "a\né".toList = some read
          ∧ slice? start stop "a\né".toList = some line
          ∧ slice? start 4 "a\né".toList = some before
          ∧ some (⟨2, ['é'], 1⟩ : Location) = some ⟨1 + read.count '\n', line, before.length⟩)
      ∧ lookup "a\né" 4 = .found ⟨2, ['é'], 1⟩
      ∧ find? "a\né".toList 3 = none := by
  have hboundary : IsBoundary "a\né" 4 := by decide +kernel
  have hfind : find? "a\né".toList 4 = some ⟨2, ['é'], 1⟩ := by decide +kernel
  obtain ⟨-, hcounts, hlookup⟩ := find?_counts "a\né" 4
  have hline := hcounts hboundary
  rw [hfind] at hline hlookup
  obtain ⟨hnone, -⟩ := find?_counts "a\né" 3
  exact ⟨hboundary, hline, hlookup, hnone.mpr (Or.inr (by decide +kernel))⟩

end Location

end ScriptFront
