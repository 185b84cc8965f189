import Mathlib.Algebra.Order.Field.Basic
import Mathlib.Algebra.Order.Ring.Abs
import Mathlib.Data.Rat.Cast.Order
import Mathlib.Order.WithBot
import Mathlib.Tactic.FieldSimp
import Mathlib.Tactic.Linarith
import Mathlib.Tactic.Positivity
import Mathlib.Tactic.Ring
import ScriptFront.Number.Binary64

/-!
# What a bit pattern says

A value is held as a sign and a rank, and its bits are these two side by side. What the bits say is
laid down by the format and knows nothing of ranks: eleven of them are an exponent, fifty-two are a
fraction, and so on (`Bits.meaning?`). Here the two are brought together.

The rank counts the numbers that are not negative. The size of the number with a rank, measured in
the smallest unit there is, is an integer (`Binary64.units`), and grows with the rank
(`Binary64.units_strictMono`). A bit pattern without a sign says just this number
(`Bits.toRat_eq`). So different values have different bits (`Binary64.toBits_inj`), and two values
are equal as numbers if their bits say the same number (`Binary64.equals_iff`).
-/

namespace ScriptFront

/-- The rational numbers with an infinity at either end, in order. -/
abbrev Extended : Type := WithBot (WithTop ℚ)

/-- A rational number as one of them. -/
def Extended.ofRat (x : ℚ) : Extended := ((x : WithTop ℚ) : WithBot (WithTop ℚ))

theorem Extended.ofRat_inj {x y : ℚ} : ofRat x = ofRat y ↔ x = y := by
  unfold ofRat
  rw [WithBot.coe_inj, WithTop.coe_inj]

theorem Extended.ofRat_le {x y : ℚ} : ofRat x ≤ ofRat y ↔ x ≤ y := by
  unfold ofRat
  rw [WithBot.coe_le_coe, WithTop.coe_le_coe]

/-- No rational number is one of the infinities. -/
theorem Extended.ofRat_ne (x : ℚ) (isNegative : Bool) : ofRat x ≠ if isNegative then ⊥ else ⊤ := by
  cases isNegative with
  | false => simp [ofRat]
  | true => simp [ofRat]

/-! ## The fields of a bit pattern -/

namespace Bits

/-- Whether the sign bit is set. -/
def negative (bits : ℕ) : Bool := bits / 2 ^ 63 % 2 == 1

/-- The eleven bits behind the sign. -/
def exponent (bits : ℕ) : ℕ := bits / 2 ^ 52 % 2 ^ 11

/-- The fifty-two bits behind the exponent. -/
def fraction (bits : ℕ) : ℕ := bits % 2 ^ 52

/-- The fraction with the bit in front of it that is not written. There is none if the exponent is
zero. -/
def significand (bits : ℕ) : ℕ :=
  if exponent bits = 0 then fraction bits else 2 ^ 52 + fraction bits

/-- The number that a bit pattern says, if its exponent is not the largest. -/
def toRat (bits : ℕ) : ℚ :=
  (if negative bits then -1 else 1) * significand bits * 2 ^ ((max 1 (exponent bits) : ℤ) - 1075)

/-- A pattern of sixty-four bits that says a number. -/
def IsFinite (bits : ℕ) : Prop := bits < 2 ^ 64 ∧ exponent bits < 2047

/-- What a bit pattern says: a number, one of the two infinities, or nothing. -/
def meaning? (bits : ℕ) : Option Extended :=
  if exponent bits < 2047 then some (.ofRat (toRat bits))
  else if fraction bits = 0 then some (if negative bits then ⊥ else ⊤)
  else none

end Bits

namespace Binary64

/-! ## Ranks and sizes -/

/-- A unit is the smallest power of two that the exponent stands for. -/
theorem unitsInOne_eq : (unitsInOne : ℚ) = 2 ^ 1074 := by
  unfold unitsInOne
  generalize 1074 = n
  exact Nat.cast_pow 2 n

theorem unitsInOne_pos : (0 : ℚ) < unitsInOne := by
  rw [unitsInOne_eq]
  exact pow_pos two_pos 1074

/-- The size of the number with a rank, in the smallest unit. -/
def units (rank : ℕ) : ℕ :=
  if rank < 2 ^ 52 then rank else (2 ^ 52 + rank % 2 ^ 52) * 2 ^ (rank / 2 ^ 52 - 1)

/-- **A rank is so many doublings and a number of steps.** The first steps of the next doubling may
be counted with this one. -/
theorem units_eq {doublings steps : ℕ} (hle : steps ≤ 2 ^ 53)
    (h : doublings = 0 ∨ 2 ^ 52 ≤ steps) :
    units (doublings * 2 ^ 52 + steps) = steps * 2 ^ doublings := by
  unfold units
  split
  · rename_i hlt
    obtain rfl : doublings = 0 := by omega
    omega
  · rename_i hge
    by_cases hlt : steps < 2 ^ 53
    · have hmod : (doublings * 2 ^ 52 + steps) % 2 ^ 52 = steps - 2 ^ 52 := by omega
      have hdiv : (doublings * 2 ^ 52 + steps) / 2 ^ 52 - 1 = doublings := by omega
      have hsteps : 2 ^ 52 + (steps - 2 ^ 52) = steps := by omega
      rw [hmod, hdiv, hsteps]
    · obtain rfl : steps = 2 ^ 53 := by omega
      have hmod : (doublings * 2 ^ 52 + 2 ^ 53) % 2 ^ 52 = 0 := by omega
      have hdiv : (doublings * 2 ^ 52 + 2 ^ 53) / 2 ^ 52 - 1 = doublings + 1 := by omega
      rw [hmod, hdiv, Nat.add_zero, Nat.pow_succ]
      omega

/-- Every rank is of this form. -/
theorem exists_steps (rank : ℕ) : ∃ doublings steps, rank = doublings * 2 ^ 52 + steps
    ∧ steps < 2 ^ 53 ∧ (doublings = 0 ∨ 2 ^ 52 ≤ steps) := by
  by_cases hlt : rank < 2 ^ 52
  · exact ⟨0, rank, by omega, by omega, Or.inl rfl⟩
  · exact ⟨rank / 2 ^ 52 - 1, 2 ^ 52 + rank % 2 ^ 52, by omega, by omega, Or.inr (by omega)⟩

/-- **The greater the rank, the greater the number.** -/
theorem units_strictMono : StrictMono units := by
  refine strictMono_nat_of_lt_succ fun rank => ?_
  obtain ⟨doublings, steps, rfl, hlt, h⟩ := exists_steps rank
  rw [Nat.add_assoc, units_eq (by omega) h, units_eq (by omega) (by omega)]
  exact Nat.mul_lt_mul_of_pos_right (Nat.lt_succ_self _) (Nat.two_pow_pos _)

end Binary64

/-! ## What the fields come to -/

namespace Bits

variable {bits : ℕ}

/-- Without its sign a bit pattern is a rank. -/
def rank (bits : ℕ) : ℕ := bits % 2 ^ 63

/-- The exponent of a rank is its multiple of a doubling. -/
theorem exponent_eq (bits : ℕ) : exponent bits = rank bits / 2 ^ 52 := by
  unfold exponent rank
  omega

theorem fraction_eq (bits : ℕ) : fraction bits = rank bits % 2 ^ 52 := by
  unfold fraction rank
  omega

/-- The power of two that the exponent stands for. -/
theorem two_zpow_exponent (exponent : ℕ) :
    (2 : ℚ) ^ ((max 1 exponent : ℤ) - 1075) = 2 ^ (exponent - 1) / Binary64.unitsInOne := by
  have hexponent : (max 1 exponent : ℤ) - 1075 = ((exponent - 1 : ℕ) : ℤ) - (1074 : ℕ) := by omega
  rw [hexponent, Binary64.unitsInOne_eq, zpow_sub₀ two_ne_zero, zpow_natCast, zpow_natCast]

/-- **A bit pattern says the number of its rank, with its sign.** -/
theorem toRat_eq (bits : ℕ) : toRat bits =
    (if negative bits then -1 else 1) * (Binary64.units (rank bits) / Binary64.unitsInOne) := by
  unfold toRat significand Binary64.units
  rw [two_zpow_exponent, exponent_eq, fraction_eq, mul_assoc, mul_div_assoc']
  congr 2
  by_cases hlt : rank bits < 2 ^ 52
  · have hzero : rank bits / 2 ^ 52 = 0 := Nat.div_eq_of_lt hlt
    rw [if_pos hzero, if_pos hlt, Nat.mod_eq_of_lt hlt, hzero, Nat.zero_sub, pow_zero, mul_one]
  · have hpos : rank bits / 2 ^ 52 ≠ 0 := by omega
    rw [if_neg hpos, if_neg hlt]
    push_cast
    rfl

/-- The significand is even just if the rank is. -/
theorem even_significand_iff (bits : ℕ) : Even (significand bits) ↔ Even (rank bits) := by
  unfold significand
  rw [exponent_eq, fraction_eq, Nat.even_iff, Nat.even_iff]
  split
  · omega
  · omega

/-- A pattern is finite if its rank is below that of infinity. -/
theorem exponent_lt_iff (bits : ℕ) : exponent bits < 2047 ↔ rank bits < Binary64.infinity := by
  have hinfinity : Binary64.infinity = 2047 * 2 ^ 52 := rfl
  rw [exponent_eq, hinfinity]
  omega

end Bits

namespace Binary64

open Bits

variable {v w : Binary64}

/-- The bits of a number are its sign and its rank. -/
theorem fields_toBits (isNegative : Bool) {rank : ℕ} (hle : rank ≤ 2047 * Nat.pow 2 52) :
    Bits.negative (number isNegative rank hle).toBits = isNegative
      ∧ Bits.rank (number isNegative rank hle).toBits = rank := by
  have hbits : (number isNegative rank hle).toBits =
      (if isNegative then 2 ^ 63 else 0) + rank := rfl
  have hinfinity : 2047 * Nat.pow 2 52 = 2047 * 2 ^ 52 := rfl
  rw [hinfinity] at hle
  rw [hbits, Bits.rank, Bits.negative]
  cases isNegative with
  | false =>
      simp only [Bool.false_eq_true, if_false, beq_eq_false_iff_ne]
      omega
  | true =>
      simp only [if_true, beq_iff_eq]
      omega

/-- The number with a sign and a rank, or infinity. -/
def extended (isNegative : Bool) (rank : ℕ) : Extended :=
  if rank < infinity then .ofRat ((if isNegative then -1 else 1) * (units rank / unitsInOne))
  else if isNegative then ⊥ else ⊤

/-- A size with a sign says its rank, and says the sign unless the size is zero. -/
theorem signed_units_inj {isNegative isNegative' : Bool} {rank rank' : ℕ} :
    (if isNegative then -1 else 1 : ℚ) * (units rank / unitsInOne) =
        (if isNegative' then -1 else 1) * (units rank' / unitsInOne) ↔
      rank = rank' ∧ (isNegative = isNegative' ∨ rank = 0) := by
  have hpos := unitsInOne_pos
  have hzero : ∀ r, units r = 0 → r = 0 := fun r hr => units_strictMono.injective hr
  rw [mul_div_assoc', mul_div_assoc', div_left_inj' hpos.ne']
  constructor
  · intro h
    have hcases : isNegative = isNegative' ∧ units rank = units rank'
        ∨ units rank = 0 ∧ units rank' = 0 := by
      have hcast : (if isNegative then -1 else 1 : ℤ) * units rank =
          (if isNegative' then -1 else 1) * units rank' := by
        exact_mod_cast h
      cases isNegative <;> cases isNegative' <;> simp at hcast ⊢ <;> omega
    rcases hcases with ⟨hsign, hunits⟩ | ⟨hunits, hunits'⟩
    · exact ⟨units_strictMono.injective hunits, Or.inl hsign⟩
    · exact ⟨(hzero _ hunits).trans (hzero _ hunits').symm, Or.inr (hzero _ hunits)⟩
  · rintro ⟨rfl, rfl | rfl⟩
    · rfl
    · have hunits : units 0 = 0 := rfl
      rw [hunits, Nat.cast_zero, mul_zero, mul_zero]

/-- So does a number or an infinity. -/
theorem extended_inj {isNegative isNegative' : Bool} {rank rank' : ℕ} (hle : rank ≤ infinity)
    (hle' : rank' ≤ infinity) :
    extended isNegative rank = extended isNegative' rank' ↔
      rank = rank' ∧ (isNegative = isNegative' ∨ rank = 0) := by
  have hinfinity : infinity ≠ 0 := by decide
  unfold extended
  by_cases hlt : rank < infinity
  · by_cases hlt' : rank' < infinity
    · rw [if_pos hlt, if_pos hlt', Extended.ofRat_inj, signed_units_inj]
    · rw [if_pos hlt, if_neg hlt']
      exact iff_of_false (Extended.ofRat_ne _ _) fun h => hlt' (h.1 ▸ hlt)
  · by_cases hlt' : rank' < infinity
    · rw [if_neg hlt, if_pos hlt']
      exact iff_of_false (Extended.ofRat_ne _ _).symm fun h => hlt (h.1 ▸ hlt')
    · obtain rfl : rank = infinity := by omega
      obtain rfl : rank' = infinity := by omega
      rw [if_neg hlt, if_neg hlt]
      cases isNegative <;> cases isNegative' <;> simp [hinfinity]

/-- **What the bits of a number say.** -/
theorem meaning?_toBits (isNegative : Bool) {rank : ℕ} (hle : rank ≤ 2047 * Nat.pow 2 52) :
    meaning? (number isNegative rank hle).toBits = some (extended isNegative rank) := by
  obtain ⟨hnegative, hrank⟩ := fields_toBits isNegative hle
  unfold meaning? extended
  by_cases hlt : rank < infinity
  · rw [if_pos ((exponent_lt_iff _).mpr (by rwa [hrank])), if_pos hlt, toRat_eq, hnegative, hrank]
  · have hfraction : fraction (number isNegative rank hle).toBits = 0 := by
      obtain rfl : rank = infinity := Nat.le_antisymm hle (Nat.le_of_not_lt hlt)
      rw [fraction_eq, hrank]
      rfl
    rw [if_neg (by rwa [exponent_lt_iff, hrank]), if_pos hfraction, if_neg hlt, hnegative]

/-- Those of what is no number say nothing. -/
theorem meaning?_nan : meaning? nan.toBits = none := rfl

/-- **Different values have different bits.** -/
theorem toBits_inj : v.toBits = w.toBits ↔ v = w := by
  constructor
  · intro h
    have hmeaning := congrArg meaning? h
    cases v with
    | nan =>
        cases w with
        | nan => rfl
        | number isNegative rank hle =>
            rw [meaning?_nan, meaning?_toBits] at hmeaning
            exact absurd hmeaning (by simp)
    | number isNegative rank hle =>
        cases w with
        | nan =>
            rw [meaning?_nan, meaning?_toBits] at hmeaning
            exact absurd hmeaning (by simp)
        | number isNegative' rank' hle' =>
            obtain ⟨hnegative, hrank⟩ := fields_toBits isNegative hle
            obtain ⟨hnegative', hrank'⟩ := fields_toBits isNegative' hle'
            rw [h] at hnegative hrank
            obtain rfl : isNegative = isNegative' := hnegative.symm.trans hnegative'
            obtain rfl : rank = rank' := hrank.symm.trans hrank'
            rfl
  · exact congrArg toBits

/-- **Two values are equal as numbers just if their bits say the same number** or the same
infinity. -/
theorem equals_iff :
    v.equals w = true ↔ ∃ x, meaning? v.toBits = some x ∧ meaning? w.toBits = some x := by
  cases v with
  | nan => simp [equals, meaning?_nan]
  | number isNegative rank hle =>
      cases w with
      | nan => simp [equals, meaning?_nan]
      | number isNegative' rank' hle' =>
          have hsame : extended isNegative rank = extended isNegative' rank' ↔
              rank = rank' ∧ (isNegative = isNegative' ∨ rank = 0) := extended_inj hle hle'
          simp only [equals, Bool.and_eq_true, Bool.or_eq_true, beq_iff_eq, meaning?_toBits]
          rw [← hsame]
          constructor
          · intro h
            exact ⟨_, rfl, congrArg _ h.symm⟩
          · rintro ⟨x, hx, hx'⟩
            exact Option.some.inj (hx.trans hx'.symm)

end Binary64

end ScriptFront
