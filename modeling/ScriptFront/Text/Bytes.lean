/-!
# Byte offsets in a text

A text is a list of characters, and every place in it is named by a byte offset into its UTF-8
form. This file is the only one that knows how the two fit together: `width` measures a text in
bytes, and `splitAtByte?` cuts it at an offset. Not every offset can be cut at. One that lies
past the end, or between two bytes of one character, names no place, and there the answer is
`none`.

`splitAtByte?_eq_some_iff` says all there is to know about a cut: the two parts make up the text,
and the first of them is as wide as the offset says.
-/

namespace ScriptFront.Text

/-- The number of bytes a text takes in UTF-8. -/
def width : List Char → Nat
  | [] => 0
  | c :: cs => c.utf8Size + width cs

/-- The parts of a text before and after a byte offset, if the offset lies between characters. -/
def splitAtByte? : Nat → List Char → Option (List Char × List Char)
  | 0, cs => some ([], cs)
  | _ + 1, [] => none
  | n + 1, c :: cs =>
      if c.utf8Size ≤ n + 1 then
        (splitAtByte? (n + 1 - c.utf8Size) cs).map fun (front, back) => (c :: front, back)
      else
        none

/-- The part of a text between two byte offsets, if both name a place and stand in order. -/
def slice? (start stop : Nat) (cs : List Char) : Option (List Char) :=
  if start ≤ stop then
    (splitAtByte? start cs).bind fun (_, back) =>
      (splitAtByte? (stop - start) back).map fun (front, _) => front
  else
    none

/-! ## Widths add up -/

@[simp] theorem width_nil : width [] = 0 := rfl

@[simp] theorem width_cons (c : Char) (cs : List Char) :
    width (c :: cs) = c.utf8Size + width cs := rfl

@[simp] theorem width_append (as bs : List Char) : width (as ++ bs) = width as + width bs := by
  induction as with
  | nil => simp
  | cons a as ih => simp [ih, Nat.add_assoc]

/-- Only the empty text has no width, because every character has some. -/
theorem width_eq_zero_iff {cs : List Char} : width cs = 0 ↔ cs = [] := by
  cases cs with
  | nil => simp
  | cons c cs => simp [Nat.ne_of_gt c.utf8Size_pos]

theorem width_pos {cs : List Char} (h : cs ≠ []) : 0 < width cs :=
  Nat.pos_of_ne_zero fun hzero => h (width_eq_zero_iff.mp hzero)

/-! ## Where a text can be cut -/

/-- A text made of two parts is cut into them at the width of the first. -/
theorem splitAtByte?_width_append (as bs : List Char) :
    splitAtByte? (width as) (as ++ bs) = some (as, bs) := by
  induction as with
  | nil => simp [splitAtByte?]
  | cons a as ih =>
      have hpos := a.utf8Size_pos
      obtain ⟨n, hn⟩ : ∃ n, a.utf8Size + width as = n + 1 := ⟨a.utf8Size + width as - 1, by omega⟩
      have hrest : n + 1 - a.utf8Size = width as := by omega
      rw [width_cons, List.cons_append, hn, splitAtByte?, if_pos (by omega), hrest, ih]
      rfl

/-- **A cut is exact.** The parts make up the text, and the first is as wide as the offset. -/
theorem splitAtByte?_eq_some_iff {n : Nat} {cs as bs : List Char} :
    splitAtByte? n cs = some (as, bs) ↔ cs = as ++ bs ∧ width as = n := by
  constructor
  · intro h
    fun_induction splitAtByte? n cs generalizing as with
    | case1 cs => simp_all
    | case2 n => simp at h
    | case3 n c cs hle ih =>
        simp only [Option.map_eq_some_iff, Prod.exists, Prod.mk.injEq] at h
        obtain ⟨front, back, hsplit, rfl, rfl⟩ := h
        obtain ⟨rfl, hw⟩ := ih hsplit
        simp only [List.cons_append, width_cons, true_and]
        omega
    | case4 n c cs hlt => simp at h
  · rintro ⟨rfl, rfl⟩
    exact splitAtByte?_width_append as bs

end ScriptFront.Text
