import Mathlib.Algebra.Order.Field.Power
import ScriptFront.Proofs.BitPatterns

/-!
# Rounding to the nearest number

A fraction lies between two numbers that follow one another, and the nearer of them is what it is
rounded to. If both are equally near, it is the one of even rank. Ranks are thought of as going on
without an end here, so there is always a number above (`Binary64.Nearest`).

This property leaves no choice (`Nearest.unique`) and keeps the order (`Nearest.rank_le`), and it
says when a rank is past all finite ones: from the middle between the last of them and the next
number on (`Nearest.lt_iff`). So nothing of how a fraction is rounded matters any more once it is
known that what comes out is nearest, and that is known of the fractions that are worked out
(`nearest_nearestRank`) and of those that are plainly too large or too small to be
(`exists_nearest_decimalRank`).

Ranks and units are only a way to count. What rounding has to do is a matter of bits and of the
numbers that they say, those with a sign included (`Bits.Rounded`), and the bits of a nearest rank
do it (`Nearest.rounded`).
-/

namespace ScriptFront

/-! ## Integers -/

/-- A fraction is rounded down or up, to the side that is nearer, and to an even integer if both
are equally near. -/
theorem roundHalfEven_cases (num den : ℕ) :
    (roundHalfEven num den = num / den ∧ 2 * (num % den) ≤ den
        ∧ (2 * (num % den) = den → Even (roundHalfEven num den)))
      ∨ (roundHalfEven num den = num / den + 1 ∧ den ≤ 2 * (num % den)
        ∧ (2 * (num % den) = den → Even (roundHalfEven num den))) := by
  unfold roundHalfEven
  split
  · rename_i hlt
    exact Or.inl ⟨rfl, by omega, fun h => absurd h (by omega)⟩
  · split
    · rename_i hlt
      exact Or.inr ⟨rfl, by omega, fun h => absurd h (by omega)⟩
    · rcases Nat.mod_two_eq_zero_or_one (num / den) with hmod | hmod
      · rw [hmod]
        exact Or.inl ⟨rfl, by omega, fun _ => Nat.even_iff.mpr hmod⟩
      · rw [hmod]
        exact Or.inr ⟨rfl, by omega, fun _ => Nat.even_iff.mpr (by omega)⟩

namespace Binary64

/-! ## The nearest number -/

/-- The number of a rank is the nearest to a size in units. If another is equally near, the rank is
even. -/
structure Nearest (x : ℚ) (rank : ℕ) : Prop where
  le : ∀ other, |(units rank : ℚ) - x| ≤ |(units other : ℚ) - x|
  even : ∀ other, other ≠ rank → |(units other : ℚ) - x| = |(units rank : ℚ) - x| → Even rank

theorem cast_units_lt {rank other : ℕ} : (units rank : ℚ) < units other ↔ rank < other := by
  rw [Nat.cast_lt, units_strictMono.lt_iff_lt]

theorem cast_units_le {rank other : ℕ} : (units rank : ℚ) ≤ units other ↔ rank ≤ other := by
  rw [Nat.cast_le, units_strictMono.le_iff_le]

variable {x y : ℚ} {rank low other : ℕ}

/-- **Only the two numbers on either side matter.** -/
theorem nearest_of_between (hlow : (units low : ℚ) ≤ x) (hhigh : x ≤ units (low + 1))
    (hle : |(units rank : ℚ) - x| ≤ x - units low)
    (hle' : |(units rank : ℚ) - x| ≤ units (low + 1) - x)
    (heven : x - units low = units (low + 1) - x → Even rank) : Nearest x rank := by
  have hside : ∀ other, other ≤ low ∧ |(units other : ℚ) - x| = x - units other
      ∨ low + 1 ≤ other ∧ |(units other : ℚ) - x| = units other - x := by
    intro other
    rcases Nat.lt_or_ge low other with hlt | hge
    · have hother := cast_units_le.mpr (Nat.succ_le_of_lt hlt)
      exact Or.inr ⟨hlt, abs_of_nonneg (by linarith)⟩
    · have hother := cast_units_le.mpr hge
      refine Or.inl ⟨hge, ?_⟩
      rw [abs_sub_comm]
      exact abs_of_nonneg (by linarith)
  constructor
  · intro other
    rcases hside other with ⟨hother, habs⟩ | ⟨hother, habs⟩
    · have hunits := cast_units_le.mpr hother
      linarith
    · have hunits := cast_units_le.mpr hother
      linarith
  · -- what is as near as this is one of the two
    have hone : ∀ r, |(units r : ℚ) - x| ≤ x - units low →
        |(units r : ℚ) - x| ≤ units (low + 1) - x →
        r = low ∧ |(units r : ℚ) - x| = x - units low
          ∨ r = low + 1 ∧ |(units r : ℚ) - x| = units (low + 1) - x := by
      intro r hr hr'
      rcases hside r with ⟨hother, habs⟩ | ⟨hother, habs⟩
      · obtain rfl := Nat.le_antisymm hother (cast_units_le.mp (by linarith))
        exact Or.inl ⟨rfl, habs⟩
      · obtain rfl := Nat.le_antisymm hother (cast_units_le.mp (by linarith))
        exact Or.inr ⟨rfl, habs⟩
    intro other hne hsame
    rcases hone rank hle hle' with ⟨rfl, habs⟩ | ⟨rfl, habs⟩
    · rcases hone other (hsame ▸ hle) (hsame ▸ hle') with ⟨rfl, -⟩ | ⟨rfl, habs'⟩
      · exact absurd rfl hne
      · exact heven (by linarith)
    · rcases hone other (hsame ▸ hle) (hsame ▸ hle') with ⟨rfl, habs'⟩ | ⟨rfl, -⟩
      · exact heven (by linarith)
      · exact absurd rfl hne

/-- So the one below is nearest if it is no farther than the one above, and even if it is as far. -/
theorem nearest_low (hlow : (units low : ℚ) ≤ x) (hle : x - units low ≤ units (low + 1) - x)
    (heven : x - units low = units (low + 1) - x → Even low) : Nearest x low := by
  have habs : |(units low : ℚ) - x| = x - units low := by
    rw [abs_sub_comm, abs_of_nonneg (sub_nonneg.mpr hlow)]
  refine nearest_of_between hlow (by linarith) ?_ ?_ heven
  · rw [habs]
  · rwa [habs]

/-- And the one above is in the other case. -/
theorem nearest_high (hhigh : x ≤ units (low + 1)) (hle : units (low + 1) - x ≤ x - units low)
    (heven : units (low + 1) - x = x - units low → Even (low + 1)) : Nearest x (low + 1) := by
  have habs : |(units (low + 1) : ℚ) - x| = units (low + 1) - x :=
    abs_of_nonneg (sub_nonneg.mpr hhigh)
  refine nearest_of_between (by linarith) hhigh ?_ ?_ fun hsame => heven hsame.symm
  · rwa [habs]
  · rw [habs]

/-- Of two numbers the greater is as near as the other from the middle on. -/
theorem abs_sub_le_iff_le {a b : ℚ} (h : a < b) : |b - x| ≤ |a - x| ↔ a + b ≤ 2 * x := by
  constructor
  · intro hnear
    rcases abs_cases (b - x) with ⟨hb, -⟩ | ⟨hb, hx⟩
    · rcases abs_cases (a - x) with ⟨ha, -⟩ | ⟨ha, -⟩
      · linarith
      · linarith
    · linarith
  · intro hmiddle
    refine abs_le.mpr ⟨?_, ?_⟩
    · have hfar := neg_abs_le (a - x)
      linarith
    · have hfar := neg_abs_le (a - x)
      linarith

/-- And the smaller is up to there. -/
theorem abs_sub_le_iff_ge {a b : ℚ} (h : a < b) : |a - x| ≤ |b - x| ↔ 2 * x ≤ a + b := by
  have hneg : -b < -a := neg_lt_neg h
  have hmirror := abs_sub_le_iff_le (x := -x) hneg
  rw [neg_sub_neg, neg_sub_neg, abs_sub_comm x a, abs_sub_comm x b] at hmirror
  rw [hmirror]
  constructor
  · intro hle
    linarith
  · intro hle
    linarith

/-- **A rank is past another, which is odd,** just if the size has come to the middle between that
and the next. -/
theorem Nearest.lt_iff (h : Nearest x rank) (hodd : ¬ Even other) :
    other < rank ↔ (units other : ℚ) + units (other + 1) ≤ 2 * x := by
  have hnext := cast_units_lt.mpr (Nat.lt_succ_self other)
  constructor
  · intro hlt
    have hmiddle := (abs_sub_le_iff_le (cast_units_lt.mpr hlt)).mp (h.le other)
    have hunits := cast_units_le.mpr (Nat.succ_le_of_lt hlt)
    linarith
  · intro hx
    by_contra hge
    have hunits := cast_units_le.mpr (Nat.le_of_not_lt hge)
    have hmiddle := (abs_sub_le_iff_ge (lt_of_le_of_lt hunits hnext)).mp (h.le (other + 1))
    -- so the rank is the other one, and the next number is as near
    obtain rfl : rank = other :=
      Nat.le_antisymm (Nat.le_of_not_lt hge) (cast_units_le.mp (by linarith))
    refine hodd (h.even (rank + 1) (Nat.succ_ne_self rank) (le_antisymm ?_ (h.le (rank + 1))))
    exact (abs_sub_le_iff_le hnext).mpr hx

/-- **The greater the size, the greater the rank.** -/
theorem Nearest.rank_le (h : Nearest x rank) (h' : Nearest y other) (hle : x ≤ y) :
    rank ≤ other := by
  by_contra hgt
  have hlt := Nat.lt_of_not_le hgt
  have hunits := cast_units_lt.mpr hlt
  have hmiddle := (abs_sub_le_iff_le hunits).mp (h.le other)
  have hmiddle' := (abs_sub_le_iff_ge hunits).mp (h'.le rank)
  obtain rfl : x = y := by linarith
  -- both are equally near and even, and the number behind the smaller one is nearer
  have hsame := le_antisymm (h.le other) (h'.le rank)
  have heven := h.even other (Nat.ne_of_lt hlt) hsame.symm
  have heven' := h'.even rank (Nat.ne_of_gt hlt) hsame
  have hbetween : other + 1 < rank := by
    rw [Nat.even_iff] at heven heven'
    omega
  have hnext := cast_units_lt.mpr (Nat.lt_succ_self other)
  have hnearer := (abs_sub_le_iff_ge hnext).mp (h'.le (other + 1))
  have hbelow := cast_units_lt.mpr hbetween
  linarith

/-- **No other rank is the nearest.** -/
theorem Nearest.unique (h : Nearest x rank) (h' : Nearest x other) : rank = other :=
  Nat.le_antisymm (h.rank_le h' (le_refl x)) (h'.rank_le h (le_refl x))

/-! ## What is worked out -/

/-- The doublings that are counted leave a number of steps that there are with them. -/
theorem steps_of_doublings {total den doublings : ℕ}
    (hdoublings : doublings = (total / den).log2 - 52) :
    total / (den * 2 ^ doublings) < 2 ^ 53
      ∧ (doublings = 0 ∨ 2 ^ 52 ≤ total / (den * 2 ^ doublings)) := by
  rw [← Nat.div_div_eq_div_mul]
  have hpos := Nat.two_pow_pos doublings
  have hupper : total / den < 2 ^ ((total / den).log2 + 1) := Nat.lt_log2_self
  constructor
  · rw [Nat.div_lt_iff_lt_mul hpos, ← pow_add]
    exact lt_of_lt_of_le hupper (Nat.pow_le_pow_right two_pos (by omega))
  · rcases Nat.eq_zero_or_pos doublings with hzero | hdoubled
    · exact Or.inl hzero
    · refine Or.inr ?_
      have hne : total / den ≠ 0 := by
        intro hzero
        rw [hzero, Nat.log2_zero] at hdoublings
        omega
      rw [Nat.le_div_iff_mul_le hpos, ← pow_add]
      exact le_trans (Nat.pow_le_pow_right two_pos (by omega)) (Nat.log2_self_le hne)

/-- What is left of a step is how far a fraction is from the number below, and what is missing to
the next step how far it is from the number above. -/
theorem sub_units {total den doublings steps left : ℕ} (hden : 0 < den) (hlt : steps < 2 ^ 53)
    (h : doublings = 0 ∨ 2 ^ 52 ≤ steps) (htotal : den * 2 ^ doublings * steps + left = total) :
    (total : ℚ) / den - units (doublings * 2 ^ 52 + steps) = left / den
      ∧ (units (doublings * 2 ^ 52 + steps + 1) : ℚ) - total / den =
        ((den * 2 ^ doublings : ℕ) - left) / den := by
  have hdenQ : (den : ℚ) ≠ 0 := Nat.cast_ne_zero.mpr hden.ne'
  have hlow : units (doublings * 2 ^ 52 + steps) = steps * 2 ^ doublings := units_eq (by omega) h
  have hhigh : units (doublings * 2 ^ 52 + steps + 1) = (steps + 1) * 2 ^ doublings := by
    rw [Nat.add_assoc]
    exact units_eq (by omega) (by omega)
  rw [hlow, hhigh, ← htotal]
  constructor
  · push_cast
    field_simp
    ring
  · push_cast
    field_simp
    ring

/-- The one is no more than the other if at most half of the step is left, or at least half. -/
theorem left_le_missing_iff {den left step : ℕ} (hden : 0 < den) :
    ((left : ℚ) / den ≤ (step - left) / den ↔ 2 * left ≤ step)
      ∧ ((step - left : ℚ) / den ≤ left / den ↔ step ≤ 2 * left) := by
  have hdenQ : (0 : ℚ) < den := Nat.cast_pos.mpr hden
  have hdouble : ((2 * left : ℕ) : ℚ) = left + left := by
    push_cast
    ring
  constructor
  · rw [div_le_div_iff_of_pos_right hdenQ, le_sub_iff_add_le, ← hdouble, Nat.cast_le]
  · rw [div_le_div_iff_of_pos_right hdenQ, sub_le_iff_le_add, ← hdouble, Nat.cast_le]

/-- Every fraction that is not negative has a nearest number, and it is the one that is worked out.
-/
theorem nearest_nearestRank (num : ℕ) {den : ℕ} (hden : 0 < den) :
    Nearest (((num * unitsInOne : ℕ) : ℚ) / den) (nearestRank num den) := by
  unfold nearestRank
  dsimp only
  generalize num * unitsInOne = total
  obtain ⟨doublings, hdoublings⟩ : ∃ d, d = (total / den).log2 - 52 := ⟨_, rfl⟩
  have hbinade : binade = 2 ^ 52 := rfl
  have hstep : Nat.pow 2 doublings = 2 ^ doublings := rfl
  rw [← hdoublings, hbinade, hstep]
  obtain ⟨hlt, hge⟩ := steps_of_doublings hdoublings
  have htotal := Nat.div_add_mod total (den * 2 ^ doublings)
  obtain ⟨hbelow, habove⟩ := sub_units hden hlt hge htotal
  obtain ⟨hdown, hup⟩ := @left_le_missing_iff den (total % (den * 2 ^ doublings))
    (den * 2 ^ doublings) hden
  rw [← hbelow, ← habove] at hdown hup
  have hmod := Nat.mod_lt total (Nat.mul_pos hden (Nat.two_pow_pos doublings))
  have hlow : 0 ≤
      (total : ℚ) / den - units (doublings * 2 ^ 52 + total / (den * 2 ^ doublings)) := by
    rw [hbelow]
    positivity
  have hhigh : 0 ≤
      units (doublings * 2 ^ 52 + total / (den * 2 ^ doublings) + 1) - (total : ℚ) / den := by
    rw [habove]
    exact div_nonneg (sub_nonneg.mpr (Nat.cast_le.mpr hmod.le)) (Nat.cast_nonneg den)
  have hparity : ∀ n, Even n → Even (doublings * 2 ^ 52 + n) := by
    intro n
    rw [Nat.even_iff, Nat.even_iff]
    omega
  rcases roundHalfEven_cases total (den * 2 ^ doublings) with
    ⟨hrounded, hle, heven⟩ | ⟨hrounded, hle, heven⟩
  · rw [hrounded] at heven ⊢
    refine nearest_low (sub_nonneg.mp hlow) (hdown.mpr hle) fun hsame => ?_
    exact hparity _ (heven (le_antisymm hle (hup.mp hsame.ge)))
  · rw [hrounded] at heven ⊢
    rw [← Nat.add_assoc]
    refine nearest_high (sub_nonneg.mp hhigh) (hup.mpr hle) fun hsame => ?_
    rw [Nat.add_assoc]
    exact hparity _ (heven (le_antisymm (hdown.mp hsame.ge) hle))

/-- What is at most half a unit is rounded to zero. -/
theorem nearest_zero (hx : 0 ≤ x) (hhalf : 2 * x ≤ 1) : Nearest x 0 := by
  have hzero : ((units 0 : ℕ) : ℚ) = 0 := Nat.cast_zero
  have hone : ((units (0 + 1) : ℕ) : ℚ) = 1 := Nat.cast_one
  refine nearest_low ?_ ?_ fun _ => Even.zero
  · rwa [hzero]
  · rw [hzero, hone]
    linarith

/-- Twice the middle between the last finite number and the next. -/
theorem units_infinity :
    (units (infinity - 1) : ℚ) + units (infinity - 1 + 1) =
      2 * ((2 ^ 1024 - 2 ^ 970) * unitsInOne) := by
  have hlast : units (2045 * 2 ^ 52 + (2 ^ 53 - 1)) = (2 ^ 53 - 1) * 2 ^ 2045 :=
    units_eq (by omega) (by omega)
  have hnext : units (2045 * 2 ^ 52 + 2 ^ 53) = 2 ^ 53 * 2 ^ 2045 := units_eq (by omega) (by omega)
  have hpow : ∀ a b : ℕ, (2 : ℚ) ^ (a + b + 1) = 2 * 2 ^ a * 2 ^ b := fun a b => by ring
  have hlast' : infinity - 1 = 2045 * 2 ^ 52 + (2 ^ 53 - 1) := rfl
  have hnext' : infinity - 1 + 1 = 2045 * 2 ^ 52 + 2 ^ 53 := rfl
  rw [hlast', hlast, ← hlast', hnext', hnext, unitsInOne_eq, Nat.cast_mul, Nat.cast_mul,
    Nat.cast_pow 2 2045]
  have hstep : (2 : ℚ) ^ 2045 = 2 * 2 ^ 970 * 2 ^ 1074 := hpow 970 1074
  have htop : (2 : ℚ) ^ 1024 = 2 ^ 54 * 2 ^ 970 := by rw [← pow_add]
  rw [Nat.cast_two, hstep, htop]
  generalize (2 : ℚ) ^ 970 = a
  generalize (2 : ℚ) ^ 1074 = b
  norm_num
  ring

/-- **A rank is that of infinity or past it** just if the size is at least half a step past the
last finite number, which has an odd rank. -/
theorem Nearest.infinity_le_iff (h : Nearest x rank) :
    infinity ≤ rank ↔ (2 ^ 1024 - 2 ^ 970) * unitsInOne ≤ x := by
  have hodd : ¬ Even (infinity - 1) := by decide
  have hpred : infinity - 1 + 1 = infinity := rfl
  have hlt := h.lt_iff hodd
  rw [units_infinity] at hlt
  rw [← hpred, Nat.add_one_le_iff, hlt]
  exact mul_le_mul_iff_of_pos_left two_pos

/-- An integer times a power of ten is such a fraction. -/
theorem nearest_mul_pow (digits power : ℕ) :
    Nearest (digits * 10 ^ (power : ℤ) * unitsInOne)
        (nearestRank (digits * Nat.pow 10 power) 1)
      ∧ Nearest (digits * 10 ^ (-power : ℤ) * unitsInOne)
        (nearestRank digits (Nat.pow 10 power)) := by
  have hten : Nat.pow 10 power = 10 ^ power := rfl
  rw [zpow_neg, zpow_natCast, hten]
  constructor
  · have hnearest := nearest_nearestRank (digits * 10 ^ power) one_pos
    rw [Nat.cast_one, div_one] at hnearest
    push_cast at hnearest
    exact hnearest
  · have hnearest := nearest_nearestRank digits (pow_pos (by decide : 0 < 10) power)
    rw [Nat.cast_mul, Nat.cast_pow, mul_div_right_comm, div_eq_mul_inv] at hnearest
    exact hnearest

theorem two_pow_le_ten_pow {power power' : ℕ} (h : 2 ^ power ≤ 10 ^ power') :
    (2 : ℚ) ^ power ≤ 10 ^ power' := by
  exact_mod_cast h

/-- A product with a large power of ten is past all finite numbers. -/
theorem le_of_large {digits power : ℕ} (hdigits : digits ≠ 0) (hpower : 310 ≤ power) :
    (2 ^ 1024 - 2 ^ 970) * (unitsInOne : ℚ) ≤ digits * 10 ^ (power : ℤ) * unitsInOne := by
  refine mul_le_mul_of_nonneg_right ?_ unitsInOne_pos.le
  have hone : (1 : ℚ) ≤ digits := Nat.one_le_cast.mpr (Nat.pos_of_ne_zero hdigits)
  rw [zpow_natCast]
  calc (2 : ℚ) ^ 1024 - 2 ^ 970 ≤ 2 ^ 1024 := sub_le_self _ (pow_nonneg zero_le_two 970)
    _ ≤ 10 ^ 310 := two_pow_le_ten_pow (by decide +kernel)
    _ ≤ 10 ^ power := pow_le_pow_right₀ (by norm_num) hpower
    _ ≤ digits * 10 ^ power := le_mul_of_one_le_left (by positivity) hone

/-- A number has no more decimal places than binary ones. -/
theorem cast_le_log2 (digits : ℕ) : (digits : ℚ) ≤ 2 * 10 ^ digits.log2 := by
  have hlt : digits < 2 ^ (digits.log2 + 1) := Nat.lt_log2_self
  have hbase := Nat.pow_le_pow_left (by decide : 2 ≤ 10) digits.log2
  have hle : digits ≤ 2 * 10 ^ digits.log2 := by
    rw [Nat.pow_succ] at hlt
    omega
  exact_mod_cast hle

/-- One with a small power is at most half a unit. -/
theorem le_of_small {digits : ℕ} {exponent : ℤ} (h : exponent + digits.log2 < -326) :
    2 * ((digits : ℚ) * 10 ^ exponent * unitsInOne) ≤ 1 := by
  have hdigits := cast_le_log2 digits
  have hpower : (10 : ℚ) ^ digits.log2 * 10 ^ exponent ≤ (10 ^ 327)⁻¹ := by
    have hneg : ((10 : ℚ) ^ 327)⁻¹ = 10 ^ (-(327 : ℕ) : ℤ) := by
      rw [zpow_neg, zpow_natCast]
    rw [hneg, ← zpow_natCast, ← zpow_add₀ (by norm_num)]
    exact zpow_le_zpow_right₀ (by norm_num) (by omega)
  have hlarge : (2 : ℚ) ^ 1076 ≤ 10 ^ 327 := two_pow_le_ten_pow (by decide +kernel)
  have hunits : (2 : ℚ) ^ 1076 = 2 ^ 2 * unitsInOne := by
    rw [unitsInOne_eq]
    exact pow_add 2 2 1074
  have hpos := unitsInOne_pos
  generalize (unitsInOne : ℚ) = unit at hunits hpos ⊢
  calc 2 * ((digits : ℚ) * 10 ^ exponent * unit)
      ≤ 2 * (2 * 10 ^ digits.log2 * 10 ^ exponent * unit) := by gcongr
    _ = 2 ^ 2 * unit * (10 ^ digits.log2 * 10 ^ exponent) := by ring
    _ ≤ 10 ^ 327 * (10 ^ 327)⁻¹ := by
        rw [← hunits]
        exact mul_le_mul hlarge hpower (by positivity) (by positivity)
    _ = 1 := mul_inv_cancel₀ (by positivity)

/-- **A rank that is not worked out may be taken for that of the nearest number** too, because a
product that is so large is past infinity, and one so small is less than half a unit. -/
theorem exists_nearest_decimalRank (digits : ℕ) (exponent : ℤ) :
    ∃ rank, Nearest (digits * 10 ^ exponent * unitsInOne) rank
      ∧ min (decimalRank digits exponent) infinity = min rank infinity := by
  unfold decimalRank
  split
  · rename_i hzero
    have hx : (digits : ℚ) * 10 ^ exponent * unitsInOne = 0 := by
      rw [hzero, Nat.cast_zero, zero_mul, zero_mul]
    rw [hx]
    exact ⟨0, nearest_zero (le_refl 0) (by norm_num), rfl⟩
  · rename_i hdigits
    split
    · rename_i hlarge
      obtain ⟨power, rfl⟩ : ∃ power : ℕ, exponent = power := ⟨exponent.toNat, by omega⟩
      have hnearest := (nearest_mul_pow digits power).1
      refine ⟨_, hnearest, ?_⟩
      rw [min_self, min_eq_right]
      exact hnearest.infinity_le_iff.mpr (le_of_large hdigits (by omega))
    · split
      · rename_i hsmall
        have hpos := unitsInOne_pos
        exact ⟨0, nearest_zero (mul_nonneg (by positivity) hpos.le) (le_of_small hsmall), rfl⟩
      · split
        · rename_i hsign
          obtain ⟨power, rfl⟩ : ∃ power : ℕ, exponent = power := ⟨exponent.toNat, by omega⟩
          exact ⟨_, (nearest_mul_pow digits power).1, rfl⟩
        · rename_i hsign
          obtain ⟨power, rfl⟩ : ∃ power : ℕ, exponent = -power := ⟨(-exponent).toNat, by omega⟩
          rw [neg_neg, Int.toNat_natCast]
          exact ⟨_, (nearest_mul_pow digits power).2, rfl⟩

end Binary64

/-! ## The bits of what is rounded -/

namespace Bits

open Binary64

/-- These are the bits of a number that is rounded and is not negative. They are those of infinity
if the number is at least half a step past the last finite one. If not, they say a number, and no
other number that bits can say is nearer. If one is equally near, the significand is even. -/
structure Rounded (q : ℚ) (bits : ℕ) : Prop where
  unsigned : bits < 2 ^ 63
  infinite : meaning? bits = some ⊤ ↔ 2 ^ 1024 - 2 ^ 970 ≤ q
  finite : q < 2 ^ 1024 - 2 ^ 970 → IsFinite bits
  nearest : q < 2 ^ 1024 - 2 ^ 970 → ∀ other, IsFinite other →
    |toRat bits - q| ≤ |toRat other - q|
  even : q < 2 ^ 1024 - 2 ^ 970 → ∀ other, IsFinite other → toRat other ≠ toRat bits →
    |toRat other - q| = |toRat bits - q| → Even (significand bits)

variable {q : ℚ}

/-- The sign does not bear on the size. -/
theorem abs_toRat (bits : ℕ) : |toRat bits| = units (rank bits) / unitsInOne := by
  have hsize : (0 : ℚ) ≤ units (rank bits) / unitsInOne :=
    div_nonneg (Nat.cast_nonneg _) unitsInOne_pos.le
  rw [toRat_eq]
  split
  · rw [neg_one_mul, abs_neg, abs_of_nonneg hsize]
  · rw [one_mul, abs_of_nonneg hsize]

/-- Distances may be taken in units. -/
theorem abs_div_unitsInOne_sub (rank : ℕ) (q : ℚ) :
    |(units rank : ℚ) / unitsInOne - q| = |(units rank : ℚ) - q * unitsInOne| / unitsInOne := by
  have hpos := unitsInOne_pos
  rw [← abs_of_pos hpos, ← abs_div, abs_of_pos hpos, sub_div, mul_div_cancel_right₀ _ hpos.ne']

end Bits

namespace Binary64

open Bits

variable {q : ℚ} {rank : ℕ}

/-- Without a sign there is one infinity. -/
theorem extended_eq_top_iff : extended false rank = ⊤ ↔ infinity ≤ rank := by
  unfold extended
  by_cases hlt : rank < infinity
  · rw [if_pos hlt]
    exact iff_of_false (Extended.ofRat_ne _ false) (Nat.not_le_of_lt hlt)
  · rw [if_neg hlt]
    exact iff_of_true rfl (Nat.le_of_not_lt hlt)

/-- Two numbers of one rank differ in their sign, and are not equally near to what is rounded to
them. -/
theorem Nearest.toRat_eq_of_rank_eq {bits : ℕ} (h : Nearest (q * unitsInOne) (Bits.rank bits))
    (hsame : |toRat bits - q| = |(units (Bits.rank bits) : ℚ) / unitsInOne - q|) :
    toRat bits = units (Bits.rank bits) / unitsInOne := by
  rcases abs_eq_abs.mp hsame with hsub | hneg
  · exact sub_left_inj.mp hsub
  · have hsize := abs_toRat bits
    rcases abs_choice (toRat bits) with hplus | hminus
    · exact hplus.symm.trans hsize
    · -- here both are as far from zero, so what is rounded is zero
      have hq : q = 0 := by linarith
      have hzero : Nearest 0 0 := nearest_zero (le_refl 0) (by norm_num)
      rw [hq, zero_mul] at h
      have hrank := h.unique hzero
      have hunits : units 0 = 0 := rfl
      rw [hrank, hunits, Nat.cast_zero, zero_div] at hsize ⊢
      exact abs_eq_zero.mp hsize

/-- No number that bits can say is nearer. Without its sign it would be no farther, and then it is
the number of a rank. -/
theorem Nearest.abs_sub_le (h : Nearest (q * unitsInOne) rank) (hq : 0 ≤ q) (other : ℕ) :
    |(units rank : ℚ) / unitsInOne - q| ≤ |(units (Bits.rank other) : ℚ) / unitsInOne - q|
      ∧ |(units (Bits.rank other) : ℚ) / unitsInOne - q| ≤ |toRat other - q| := by
  constructor
  · rw [abs_div_unitsInOne_sub, abs_div_unitsInOne_sub]
    exact div_le_div_of_nonneg_right (h.le _) unitsInOne_pos.le
  · have hsign := abs_abs_sub_abs_le (toRat other) q
    rwa [abs_toRat, abs_of_nonneg hq] at hsign

/-- If one is as near and not the same, it has another rank, and that is as near. -/
theorem Nearest.even_of_toRat_ne (h : Nearest (q * unitsInOne) rank) (hq : 0 ≤ q) {other : ℕ}
    (hne : toRat other ≠ units rank / unitsInOne)
    (hsame : |toRat other - q| = |(units rank : ℚ) / unitsInOne - q|) : Even rank := by
  by_cases hother : Bits.rank other = rank
  · subst hother
    exact absurd (h.toRat_eq_of_rank_eq hsame) hne
  · obtain ⟨hle, hle'⟩ := h.abs_sub_le hq other
    have hdistance := le_antisymm hle (hle'.trans hsame.le)
    rw [abs_div_unitsInOne_sub, abs_div_unitsInOne_sub, div_left_inj' unitsInOne_pos.ne']
      at hdistance
    exact h.even _ hother hdistance.symm

/-- **What has the nearest rank has the bits of the rounded number.** -/
theorem Nearest.rounded (h : Nearest (q * unitsInOne) rank) (hq : 0 ≤ q) :
    Rounded q (ofRank false rank).toBits := by
  obtain ⟨hnegative, hrank⟩ : negative (ofRank false rank).toBits = false
      ∧ Bits.rank (ofRank false rank).toBits = min rank infinity :=
    fields_toBits false (Nat.min_le_right rank infinity)
  have hmeaning : meaning? (ofRank false rank).toBits = some (extended false (min rank infinity)) :=
    meaning?_toBits false (Nat.min_le_right rank infinity)
  have hunsigned : (ofRank false rank).toBits < 2 ^ 63 := by
    have hbits : (ofRank false rank).toBits = 0 + min rank infinity := rfl
    have hinfinity : infinity < 2 ^ 63 := by decide
    omega
  have hinfinite : infinity ≤ rank ↔ 2 ^ 1024 - 2 ^ 970 ≤ q := by
    rw [h.infinity_le_iff]
    exact mul_le_mul_iff_of_pos_right unitsInOne_pos
  have hfinite : q < 2 ^ 1024 - 2 ^ 970 → rank < infinity
      ∧ toRat (ofRank false rank).toBits = units rank / unitsInOne := by
    intro hbelow
    have hlt : rank < infinity := by
      rwa [← not_le, hinfinite, not_le]
    rw [toRat_eq, hnegative, hrank, min_eq_left hlt.le]
    exact ⟨hlt, one_mul _⟩
  constructor
  · exact hunsigned
  · rw [hmeaning, Option.some_inj, extended_eq_top_iff, ← hinfinite]
    omega
  · intro hbelow
    have hlt := (hfinite hbelow).1
    refine ⟨by omega, ?_⟩
    rw [exponent_lt_iff, hrank]
    omega
  · intro hbelow other _
    obtain ⟨hle, hle'⟩ := h.abs_sub_le hq other
    rw [(hfinite hbelow).2]
    exact hle.trans hle'
  · intro hbelow other _ hne hsame
    obtain ⟨hlt, htoRat⟩ := hfinite hbelow
    rw [even_significand_iff, hrank, min_eq_left hlt.le]
    rw [htoRat] at hne hsame
    exact h.even_of_toRat_ne hq hne hsame

end Binary64

end ScriptFront
