import ScriptFront.Proofs.Longest

/-!
# Numbers

A decimal is some digits and then any number of fractional parts, each of them a point and some
digits. It is a number if it has one fractional part at most. The rule for numbers reaches over
the number that a text begins with and no farther, and where that is not the whole of a decimal
there is a mistake. So what matters is the longest decimal that the text begins with, and how many
fractional parts that has (`cut_decimal`).

A part that is taken off the front is as long as it can be, because digits end where the next
part begins, with its point. This makes what `Rule.fractions` takes the longest of its kind.
-/

namespace ScriptFront

open Rule

/-- Fractional parts that follow one another, by their number. -/
inductive Fractions : Nat → List Char → Prop where
  | nil : Fractions 0 []
  | cons {n : Nat} {digits cs : List Char} : digits ≠ [] → (∀ c ∈ digits, c.isDigit = true) →
      Fractions n cs → Fractions (n + 1) ('.' :: (digits ++ cs))

/-- Digits and the fractional parts behind them, by the number of these. -/
inductive Decimal : Nat → List Char → Prop where
  | mk {n : Nat} {digits cs : List Char} : digits ≠ [] → (∀ c ∈ digits, c.isDigit = true) →
      Fractions n cs → Decimal n (digits ++ cs)

/-- The longest decimal that a text begins with. -/
def longestDecimal (cs : List Char) : List Char :=
  cs.takeWhile Char.isDigit ++
    (cs.dropWhile Char.isDigit).take (fractions (cs.dropWhile Char.isDigit))

/-! ## Points count fractional parts -/

/-- No digit is a point. -/
theorem count_point_of_digits {digits : List Char} (h : ∀ c ∈ digits, c.isDigit = true) :
    digits.count '.' = 0 := by
  refine List.count_eq_zero.mpr fun hmem => ?_
  exact absurd (h '.' hmem) (by decide)

theorem Fractions.count_point {n : Nat} {cs : List Char} (h : Fractions n cs) :
    cs.count '.' = n := by
  induction h with
  | nil => rfl
  | cons _ hdigits _ ih =>
      rw [List.count_cons_self, List.count_append, count_point_of_digits hdigits, ih, Nat.zero_add]

theorem Decimal.count_point {n : Nat} {cs : List Char} (h : Decimal n cs) :
    cs.count '.' = n := by
  obtain ⟨_, hdigits, hfractions⟩ := h
  rw [List.count_append, count_point_of_digits hdigits, hfractions.count_point, Nat.zero_add]

/-- A decimal begins with a digit. -/
theorem Decimal.exists_cons {n : Nat} {cs : List Char} (h : Decimal n cs) :
    ∃ c rest, cs = c :: rest ∧ c.isDigit = true := by
  obtain ⟨hne, hdigits, _⟩ := h
  obtain ⟨c, digits, rfl⟩ := List.exists_cons_of_ne_nil hne
  exact ⟨c, _, rfl, hdigits c List.mem_cons_self⟩

/-- A decimal is made of digits and points. -/
theorem Decimal.mem {n : Nat} {cs : List Char} (h : Decimal n cs) :
    ∀ c ∈ cs, c.isDigit = true ∨ c = '.' := by
  have hfractions : ∀ {m : Nat} {fs : List Char}, Fractions m fs →
      ∀ c ∈ fs, c.isDigit = true ∨ c = '.' := by
    intro m fs hfs
    induction hfs with
    | nil => simp
    | cons _ hdigits _ ih =>
        intro c hc
        rcases List.mem_cons.mp hc with rfl | hc
        · exact Or.inr rfl
        · rcases List.mem_append.mp hc with hc | hc
          · exact Or.inl (hdigits c hc)
          · exact ih c hc
  obtain ⟨_, hdigits, hfs⟩ := h
  intro c hc
  rcases List.mem_append.mp hc with hc | hc
  · exact Or.inl (hdigits c hc)
  · exact hfractions hfs c hc

/-! ## Fractional parts -/

/-- Digits in front of a text are part of its run of digits. -/
theorem takeWhile_digits {digits : List Char} (h : ∀ c ∈ digits, c.isDigit = true)
    (cs : List Char) :
    (digits ++ cs).takeWhile Char.isDigit = digits ++ cs.takeWhile Char.isDigit
      ∧ (digits ++ cs).dropWhile Char.isDigit = cs.dropWhile Char.isDigit :=
  ⟨List.takeWhile_append_of_pos h, List.dropWhile_append_of_pos h⟩

/-- A fractional part is a point and all digits behind it. -/
theorem exists_of_fraction_ne_zero {cs : List Char} (h : fraction cs ≠ 0) :
    ∃ digits rest, cs = '.' :: (digits ++ rest) ∧ digits ≠ []
      ∧ (∀ c ∈ digits, c.isDigit = true) ∧ fraction cs = digits.length + 1 := by
  cases cs with
  | nil => exact absurd rfl h
  | cons c cs =>
      by_cases hc : c = '.' ∧ runLength Char.isDigit cs ≠ 0
      · obtain ⟨rfl, hrun⟩ := hc
        refine ⟨cs.takeWhile Char.isDigit, cs.dropWhile Char.isDigit, ?_, ?_, ?_, ?_⟩
        · rw [List.takeWhile_append_dropWhile]
        · exact fun hnil => hrun (List.length_eq_zero_iff.mpr hnil)
        · exact List.all_eq_true.mp List.all_takeWhile
        · rw [fraction, if_pos ⟨rfl, hrun⟩]
          exact Nat.add_comm 1 _
      · exact absurd (by rw [fraction, if_neg hc]) h

/-- A point and digits are a fractional part, together with all digits that follow. -/
theorem fraction_point {digits : List Char} (hne : digits ≠ [])
    (h : ∀ c ∈ digits, c.isDigit = true) (cs : List Char) :
    fraction ('.' :: (digits ++ cs)) = 1 + (digits.length + runLength Char.isDigit cs) := by
  have hrun : runLength Char.isDigit (digits ++ cs) =
      digits.length + runLength Char.isDigit cs := by
    unfold runLength
    rw [(takeWhile_digits h cs).1, List.length_append]
  have hpos := List.length_pos_iff.mpr hne
  rw [fraction, if_pos ⟨rfl, by omega⟩, hrun]

/-- What is taken for fractional parts is just that. -/
theorem exists_fractions (cs : List Char) : ∃ n, Fractions n (cs.take (fractions cs)) := by
  fun_induction fractions cs with
  | case1 cs hzero => exact ⟨0, Fractions.nil⟩
  | case2 cs hne ih =>
      obtain ⟨n, hn⟩ := ih
      obtain ⟨digits, rest, rfl, hdigits, hall, hlength⟩ := exists_of_fraction_ne_zero hne
      rw [hlength, List.drop_succ_cons, List.drop_left] at hn ⊢
      rw [Nat.add_right_comm, List.take_succ_cons, List.take_length_add_append]
      exact ⟨n + 1, Fractions.cons hdigits hall hn⟩

/-- **No fractional parts at the start of a text are longer.** -/
theorem Fractions.length_le {n : Nat} {parts cs : List Char} (h : Fractions n parts)
    (hstarts : parts <+: cs) : parts.length ≤ fractions cs := by
  induction h generalizing cs with
  | nil => exact Nat.zero_le _
  | @cons m digits fs hne hall hfs ih =>
      obtain ⟨rest, rfl⟩ := hstarts
      rw [List.cons_append, List.append_assoc]
      have hfraction := fraction_point hne hall (fs ++ rest)
      rw [fractions, if_neg (by omega), List.length_cons, List.length_append]
      cases hfs with
      | nil =>
          rw [List.length_nil]
          omega
      | @cons k ds gs hds hallds hgs =>
          -- the digits end at the point of the next part
          have hstop : runLength Char.isDigit ('.' :: (ds ++ gs) ++ rest) = 0 := rfl
          rw [hstop] at hfraction
          rw [hfraction, Nat.add_comm 1, Nat.add_zero, List.drop_succ_cons, List.drop_left]
          have := ih (List.prefix_append _ rest)
          omega

/-! ## The longest decimal -/

/-- The longest decimal and what is left behind it make up the text. -/
theorem longestDecimal_append (cs : List Char) :
    longestDecimal cs ++
      (cs.dropWhile Char.isDigit).drop (fractions (cs.dropWhile Char.isDigit)) = cs := by
  unfold longestDecimal
  rw [List.append_assoc, List.take_append_drop, List.takeWhile_append_dropWhile]

theorem longestDecimal_isPrefix (cs : List Char) : longestDecimal cs <+: cs :=
  ⟨_, longestDecimal_append cs⟩

theorem drop_longestDecimal (cs : List Char) :
    cs.drop (longestDecimal cs).length =
      (cs.dropWhile Char.isDigit).drop (fractions (cs.dropWhile Char.isDigit)) := by
  have hdrop := congrArg (List.drop (longestDecimal cs).length) (longestDecimal_append cs)
  rw [List.drop_left] at hdrop
  exact hdrop.symm

/-- Where a digit begins a text, so does a decimal. -/
theorem exists_decimal {c : Char} (h : c.isDigit = true) (cs : List Char) :
    ∃ n, Decimal n (longestDecimal (c :: cs)) := by
  obtain ⟨n, hn⟩ := exists_fractions ((c :: cs).dropWhile Char.isDigit)
  refine ⟨n, Decimal.mk ?_ ?_ hn⟩
  · rw [List.takeWhile_cons_of_pos h]
    exact List.cons_ne_nil _ _
  · exact List.all_eq_true.mp List.all_takeWhile

/-- **No decimal at the start of a text is longer.** -/
theorem Decimal.length_le {n : Nat} {literal cs : List Char} (h : Decimal n literal)
    (hstarts : literal <+: cs) : literal.length ≤ (longestDecimal cs).length := by
  obtain ⟨rest, rfl⟩ := hstarts
  obtain ⟨hne, hall, hfs⟩ := h
  rename_i digits fs
  unfold longestDecimal
  rw [List.append_assoc, (takeWhile_digits hall _).1, (takeWhile_digits hall _).2]
  simp only [List.length_append, List.length_take]
  cases hfs with
  | nil =>
      rw [List.length_nil]
      omega
  | @cons k ds gs hds hallds hgs =>
      -- the point ends the digits, so what is behind them are the parts and the rest
      have hstop : ('.' :: (ds ++ gs) ++ rest).dropWhile Char.isDigit = '.' :: (ds ++ gs) ++ rest :=
        rfl
      have hle := (Fractions.cons hds hallds hgs).length_le (List.prefix_append _ rest)
      rw [hstop, List.length_append]
      omega

/-- The longest decimal is known by being as long as all others. -/
theorem Decimal.eq_longestDecimal {n : Nat} {literal cs : List Char} (h : Decimal n literal)
    (hstarts : literal <+: cs) (hmax : (longestDecimal cs).length ≤ literal.length) :
    literal = longestDecimal cs := by
  have hle := h.length_le hstarts
  have hwithin := List.prefix_of_prefix_length_le hstarts (longestDecimal_isPrefix cs) hle
  exact hwithin.eq_of_length (by omega)

namespace Piece

/-- The number that a text begins with, and what is behind it. -/
theorem take_reach_number {cs : List Char} (h : runLength Char.isDigit cs ≠ 0) :
    cs.take (number.reach cs) =
        cs.takeWhile Char.isDigit ++
          (cs.dropWhile Char.isDigit).take (fraction (cs.dropWhile Char.isDigit))
      ∧ cs.drop (number.reach cs) =
        (cs.dropWhile Char.isDigit).drop (fraction (cs.dropWhile Char.isDigit)) := by
  have hreach : number.reach cs =
      runLength Char.isDigit cs + fraction (cs.dropWhile Char.isDigit) := by
    simp only [reach, if_neg h, drop_runLength]
  rw [hreach, List.take_add, take_runLength, drop_runLength, ← List.drop_drop, drop_runLength]
  exact ⟨rfl, rfl⟩

/-- There is something wrong with a number just if more than one fractional part follows. -/
theorem ofNumber_digits {digits : List Char} (h : ∀ c ∈ digits, c.isDigit = true)
    (cs : List Char) :
    ofNumber (digits ++ cs.take (fraction cs)) (cs.drop (fraction cs)) =
      if (cs.take (fractions cs)).count '.' ≤ 1 then
        found (.token .number (String.ofList (digits ++ cs.take (fractions cs)))
          (digits ++ cs.take (fractions cs)) (cs.drop (fractions cs)))
      else
        found (.mistake (.malformedNumber (String.ofList (digits ++ cs.take (fractions cs))))) := by
  have hdigits : '.' ∉ digits := List.count_eq_zero.mp (count_point_of_digits h)
  unfold ofNumber excess
  by_cases hzero : fraction cs = 0
  · -- a number without a fractional part, behind which no check is made
    have hnone : fractions cs = 0 := by rw [fractions, if_pos hzero]
    rw [hzero, hnone, List.take_zero, List.append_nil, if_neg hdigits]
    rfl
  · -- the rule stops behind the first part, and the check goes on from there
    have hsum : fractions cs = fraction cs + fractions (cs.drop (fraction cs)) := by
      rw [fractions, if_neg hzero]
    obtain ⟨ds, rest, rfl, -, hds, hlength⟩ := exists_of_fraction_ne_zero hzero
    rw [hlength, List.drop_succ_cons, List.drop_left] at hsum
    have hpoint : '.' ∈ digits ++ ('.' :: (ds ++ rest)).take (ds.length + 1) :=
      List.mem_append_right _ List.mem_cons_self
    rw [hlength, List.drop_succ_cons, List.drop_left, if_pos hpoint, hsum, Nat.add_right_comm,
      List.take_succ_cons, List.take_succ_cons, List.take_left, List.take_length_add_append,
      List.drop_succ_cons, ← List.drop_drop, List.drop_left, List.count_cons_self,
      List.count_append, count_point_of_digits hds, Nat.zero_add]
    obtain ⟨n, hn⟩ := exists_fractions rest
    by_cases hmore : fractions rest = 0
    · rw [hmore, if_pos rfl, if_pos (by simp), List.take_zero, List.append_nil]
      rfl
    · -- what follows is not empty, so there is a point in it
      have hcount : (rest.take (fractions rest)).count '.' ≠ 0 := by
        rw [hn.count_point]
        intro hzero
        subst hzero
        generalize htake : rest.take (fractions rest) = taken at hn
        cases hn
        rcases List.take_eq_nil_iff.mp htake with hnil | rfl
        · exact hmore hnil
        · exact hmore (by rw [fractions]; rfl)
      rw [if_neg hmore, if_neg (by omega), List.append_assoc, List.cons_append]

/-- **Where a digit begins a text, the longest decimal decides.** -/
theorem cut_decimal {n : Nat} {c : Char} {cs : List Char} (hc : c.isDigit = true)
    (h : Decimal n (longestDecimal (c :: cs))) :
    cut table (c :: cs) =
      if n ≤ 1 then
        found (.token .number (String.ofList (longestDecimal (c :: cs))) (longestDecimal (c :: cs))
          ((c :: cs).drop (longestDecimal (c :: cs)).length))
      else found (.mistake (.malformedNumber (String.ofList (longestDecimal (c :: cs))))) := by
  have hdigits : ∀ d ∈ (c :: cs).takeWhile Char.isDigit, d.isDigit = true :=
    List.all_eq_true.mp List.all_takeWhile
  have hcount : ((c :: cs).dropWhile Char.isDigit |>.take
      (fractions ((c :: cs).dropWhile Char.isDigit))).count '.' = n := by
    have hall := h.count_point
    unfold longestDecimal at hall
    rwa [List.count_append, count_point_of_digits hdigits, Nat.zero_add] at hall
  obtain ⟨htake, hdrop⟩ := @take_reach_number (c :: cs) (runLength_cons_ne_zero.mpr hc)
  rw [cut_number hc, htake, hdrop, ofNumber_digits hdigits, hcount, drop_longestDecimal]
  rfl

end Piece

end ScriptFront
