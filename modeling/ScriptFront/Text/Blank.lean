import ScriptFront.Text.CodeRange

/-!
# White space at the end of a line

A reader does not see what white space a line ends with, so a line that is shown loses it. The
characters meant are those with the Unicode property White_Space, which holds many more than the
four that separate tokens.
-/

namespace ScriptFront.Text

/-- The code points with the property White_Space. -/
def whiteSpace : List CodeRange :=
  [⟨0x9, 0xD⟩, ⟨0x20, 0x20⟩, ⟨0x85, 0x85⟩, ⟨0xA0, 0xA0⟩, ⟨0x1680, 0x1680⟩, ⟨0x2000, 0x200A⟩,
    ⟨0x2028, 0x2029⟩, ⟨0x202F, 0x202F⟩, ⟨0x205F, 0x205F⟩, ⟨0x3000, 0x3000⟩]

/-- Whether a character has the property White_Space. -/
def isWhiteSpace (c : Char) : Bool := inTable whiteSpace c

/-- A text without the white space at its end. -/
def trimEnd : List Char → List Char
  | [] => []
  | c :: cs =>
      match trimEnd cs with
      | [] => if isWhiteSpace c then [] else [c]
      | d :: ds => c :: d :: ds

/-- What is trimmed is white space, and nothing else is. -/
theorem exists_append_trimEnd (cs : List Char) :
    ∃ tail, cs = trimEnd cs ++ tail ∧ ∀ c ∈ tail, isWhiteSpace c := by
  induction cs with
  | nil => exact ⟨[], rfl, by simp⟩
  | cons c cs ih =>
      obtain ⟨tail, htail, hall⟩ := ih
      cases hcs : trimEnd cs with
      | nil =>
          by_cases hc : isWhiteSpace c
          · refine ⟨c :: tail, ?_, ?_⟩
            · simp only [trimEnd, hcs, if_pos hc, List.nil_append, List.cons.injEq, true_and]
              simpa [hcs] using htail
            · simpa [hc] using hall
          · refine ⟨tail, ?_, hall⟩
            simp only [trimEnd, hcs, if_neg hc, List.cons_append, List.nil_append,
              List.cons.injEq, true_and]
            simpa [hcs] using htail
      | cons d ds =>
          refine ⟨tail, ?_, hall⟩
          simp only [trimEnd, hcs, List.cons_append, List.cons.injEq, true_and]
          simpa [hcs] using htail

/-- No white space is left at the end. -/
theorem getLast?_trimEnd (cs : List Char) : ∀ c ∈ (trimEnd cs).getLast?, isWhiteSpace c = false := by
  induction cs with
  | nil => simp [trimEnd]
  | cons c cs ih =>
      cases hcs : trimEnd cs with
      | nil =>
          by_cases hc : isWhiteSpace c
          · simp [trimEnd, hcs, hc]
          · simp [trimEnd, hcs, hc]
      | cons d ds =>
          simp only [trimEnd, hcs, List.getLast?_cons_cons]
          simpa [hcs] using ih

end ScriptFront.Text
