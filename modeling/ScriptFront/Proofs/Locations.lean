import Mathlib.Data.List.TakeWhile
import ScriptFront.Source.Location

/-!
# Lines and columns, counted

A location is found by a walk over the lines of the text. What it comes to can be said without
lines: cut the text in two at the offset, and the line number is one more than the newlines in the
first part, the column is the number of characters behind the last of them, and the line is made of
these characters and of the second part up to its first newline (`Location.find?_width_append`).
The end of the text is no exception, whether a newline ends it or not.

Proofs about lines go by `line_induction`: a text has no newline in it, or it is a line with its
newline and a text behind that.
-/

namespace ScriptFront

namespace Text

/-- The characters of a text behind its last newline. -/
def lastLine (cs : List Char) : List Char := (cs.reverse.takeWhile (· != '\n')).reverse

/-- The first line of a text, with its newline if it has one. -/
def firstLine : List Char → List Char
  | [] => []
  | c :: cs => if c = '\n' then [c] else c :: firstLine cs

/-- The text behind its first line. -/
def afterLine : List Char → List Char
  | [] => []
  | c :: cs => if c = '\n' then cs else afterLine cs

/-- **Induction line by line.** -/
@[elab_as_elim]
theorem line_induction {P : List Char → Prop} (last : ∀ body, '\n' ∉ body → P body)
    (line : ∀ body rest, '\n' ∉ body → P rest → P (body ++ '\n' :: rest)) (cs : List Char) :
    P cs := by
  by_cases h : '\n' ∈ cs
  · obtain ⟨body, rest, hcs, hbody⟩ := List.eq_append_cons_of_mem h
    have hlt : rest.length < cs.length := by
      rw [hcs, List.length_append, List.length_cons]
      omega
    rw [hcs]
    exact line body rest hbody (line_induction last line rest)
  · exact last cs h
termination_by cs.length
decreasing_by exact hlt

/-! ## The first line and the last -/

/-- A line is taken off the front of the lines. -/
theorem lines_eq_cons {cs : List Char} (h : cs ≠ []) :
    lines cs = firstLine cs :: lines (afterLine cs) := by
  induction cs with
  | nil => exact absurd rfl h
  | cons c cs ih =>
      by_cases hc : c = '\n'
      · simp only [lines, firstLine, afterLine, if_pos hc]
      · simp only [lines, firstLine, afterLine, if_neg hc]
        cases cs with
        | nil => rfl
        | cons d ds => rw [ih (by simp)]

/-- Characters without a newline are the beginning of the first line. -/
theorem firstLine_append {front : List Char} (h : '\n' ∉ front) (back : List Char) :
    firstLine (front ++ back) = front ++ firstLine back
      ∧ afterLine (front ++ back) = afterLine back := by
  induction front with
  | nil => exact ⟨rfl, rfl⟩
  | cons c front ih =>
      obtain ⟨hfirst, hafter⟩ := ih fun hmem => h (List.mem_cons_of_mem c hmem)
      have hc : ¬ c = '\n' := fun heq => h (heq ▸ List.mem_cons_self)
      simp only [List.cons_append, firstLine, afterLine, if_neg hc, hfirst, hafter, and_self]

/-- A newline ends a line, and the others are those of the text behind it. -/
theorem lines_append_newline {body : List Char} (h : '\n' ∉ body) (rest : List Char) :
    lines (body ++ '\n' :: rest) = (body ++ ['\n']) :: lines rest := by
  rw [lines_eq_cons (by simp), (firstLine_append h _).1, (firstLine_append h _).2]
  rfl

/-- The first line and the text behind it make up the text. -/
theorem firstLine_append_afterLine (cs : List Char) : firstLine cs ++ afterLine cs = cs := by
  induction cs with
  | nil => rfl
  | cons c cs ih =>
      rw [firstLine, afterLine]
      split
      · rfl
      · rw [List.cons_append, ih]

/-- The first line is not empty, unless there is no text. -/
theorem firstLine_ne_nil {cs : List Char} (h : cs ≠ []) : firstLine cs ≠ [] := by
  cases cs with
  | nil => exact absurd rfl h
  | cons c cs =>
      rw [firstLine]
      split <;> simp

/-- The first line is what stands in front of the first newline, and then that newline. -/
theorem exists_firstLine (cs : List Char) :
    ∃ ending, firstLine cs = cs.takeWhile (· != '\n') ++ ending
      ∧ (ending = [] ∨ ending = ['\n']) := by
  induction cs with
  | nil => exact ⟨[], rfl, Or.inl rfl⟩
  | cons c cs ih =>
      by_cases hc : c = '\n'
      · subst hc
        exact ⟨['\n'], rfl, Or.inr rfl⟩
      · obtain ⟨ending, hfirst, hending⟩ := ih
        have hne : (c != '\n') = true := bne_iff_ne.mpr hc
        refine ⟨ending, ?_, hending⟩
        rw [firstLine, if_neg hc, hfirst, List.takeWhile_cons, if_pos hne, List.cons_append]

/-- A text without a newline is its own last line. -/
theorem lastLine_of_notMem {cs : List Char} (h : '\n' ∉ cs) : lastLine cs = cs := by
  have hall : ∀ c ∈ cs.reverse, (c != '\n') = true :=
    fun c hc => bne_iff_ne.mpr fun heq => h (heq ▸ List.mem_reverse.mp hc)
  rw [lastLine, List.takeWhile_eq_self_iff.mpr hall, List.reverse_reverse]

/-- What stands in front of a newline is not on the last line. -/
theorem lastLine_append_newline (body rest : List Char) :
    lastLine (body ++ '\n' :: rest) = lastLine rest := by
  unfold lastLine
  rw [List.reverse_append, List.reverse_cons, List.append_assoc, List.singleton_append,
    List.takeWhile_append]
  split
  · rename_i hlength
    rw [List.takeWhile_cons_of_neg (by simp), List.append_nil]
    exact congrArg List.reverse
      ((List.takeWhile_prefix _).eq_of_length hlength).symm
  · rfl

/-- No newline is on the last line. -/
theorem notMem_lastLine (cs : List Char) : '\n' ∉ lastLine cs := by
  induction cs using line_induction with
  | last body hbody => rwa [lastLine_of_notMem hbody]
  | line body rest _ ih => rwa [lastLine_append_newline]

end Text

namespace Location

open Text

/-- A line with a newline does not end open. -/
theorem endsOpen_eq_false (body : List Char) (rest : List (List Char)) :
    endsOpen (body ++ ['\n']) rest = false := by
  simp [endsOpen]

/-- The location of an offset on the first of some lines. -/
theorem among?_of_notMem {front : List Char} (h : '\n' ∉ front) (number : Nat)
    (back : List Char) :
    among? number (width front) (lines (front ++ back)) =
      some ⟨number, front ++ firstLine back, front.length⟩ := by
  by_cases hnil : front ++ back = []
  · obtain ⟨rfl, rfl⟩ := List.append_eq_nil_iff.mp hnil
    rfl
  · obtain ⟨hfirst, hafter⟩ := firstLine_append h back
    rw [lines_eq_cons hnil, hfirst, hafter, among?, if_pos, splitAtByte?_width_append]
    · rfl
    · -- the offset is inside the line, or it is the end of the text and the line has no newline
      cases back with
      | nil =>
          refine Or.inr ⟨by rw [firstLine, List.append_nil], ?_⟩
          have hlast : front.getLast? ≠ some '\n' := fun heq =>
            h (List.mem_of_getLast? heq)
          simp [firstLine, afterLine, lines, endsOpen, hlast]
      | cons c back =>
          refine Or.inl ?_
          have hpos : width (firstLine (c :: back)) ≠ 0 := fun hzero =>
            firstLine_ne_nil (by simp) (width_eq_zero_iff.mp hzero)
          rw [width_append]
          omega

/-- **A location is a matter of counting**, on lines that are counted from any number. -/
theorem among?_width_append (number : Nat) (front back : List Char) :
    among? number (width front) (lines (front ++ back)) =
      some ⟨number + front.count '\n', lastLine front ++ firstLine back,
        (lastLine front).length⟩ := by
  induction front using line_induction generalizing number with
  | last body hbody =>
      rw [among?_of_notMem hbody, List.count_eq_zero.mpr hbody, lastLine_of_notMem hbody]
      rfl
  | line body rest hbody ih =>
      -- the offset is behind the first line, whose newline is counted
      have hlines : lines (body ++ '\n' :: rest ++ back) =
          (body ++ ['\n']) :: lines (rest ++ back) := by
        rw [List.append_assoc, List.cons_append, lines_append_newline hbody]
      have hwidth : width (body ++ '\n' :: rest) = width (body ++ ['\n']) + width rest := by
        rw [List.append_cons, width_append]
      have hbehind : ¬ (width (body ++ '\n' :: rest) < width (body ++ ['\n'])
          ∨ width (body ++ '\n' :: rest) = width (body ++ ['\n'])
            ∧ endsOpen (body ++ ['\n']) (lines (rest ++ back)) = true) := by
        rw [endsOpen_eq_false, hwidth]
        rintro (hlt | ⟨-, hopen⟩)
        · omega
        · exact Bool.false_ne_true hopen
      rw [hlines, among?, if_neg hbehind, hwidth, Nat.add_sub_cancel_left, ih,
        lastLine_append_newline, List.count_append, List.count_eq_zero.mpr hbody,
        List.count_cons_self]
      have hnumber : number + 1 + rest.count '\n' = number + (0 + (rest.count '\n' + 1)) := by omega
      rw [hnumber]

/-- **A location is a matter of counting.** Where the first part of a text ends, the line number is
one more than its newlines, and the column is the length of its last line. -/
theorem find?_width_append (front back : List Char) :
    find? (front ++ back) (width front) =
      some ⟨1 + front.count '\n', lastLine front ++ firstLine back, (lastLine front).length⟩ :=
  among?_width_append 1 front back

end Location

end ScriptFront
