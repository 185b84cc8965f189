import ScriptFront.Proofs.Literals
import ScriptFront.Proofs.Rounding

/-!
# The values of literals

The text of a number denotes a rational number, as anybody reads it: the digits in front of the
point are an integer, and those behind it are a part of one (`Denotes`). The leaf that is made for a
number token has the value that this is rounded to (`Expr.ofNumber_rounds`). How the text was
written is forgotten on the way. Zeros in front or at the end make no difference to what is denoted,
and so make none to the value.

The text is read as an integer times a power of ten, digits behind the point and all. That this is
what it denotes (`Denotes.says`) is all that has to be known of the reader here, and that the rank
worked out from the two is the nearest all that has to be known of rounding.
-/

namespace ScriptFront

open Numeral

/-- The number that a text denotes, if it is made of digits, or of digits and a point and more
digits. -/
inductive Denotes : List Char → ℚ → Prop where
  | whole {digits : List Char} : digits ≠ [] → AllDigits digits →
      Denotes digits (Nat.ofDigitChars 10 digits 0)
  | point {digits fraction : List Char} : digits ≠ [] → AllDigits digits → fraction ≠ [] →
      AllDigits fraction →
      Denotes (digits ++ '.' :: fraction)
        (Nat.ofDigitChars 10 digits 0 + Nat.ofDigitChars 10 fraction 0 / 10 ^ fraction.length)

/-! ## What digits say -/

/-- Digits behind others move these up by as many places. -/
theorem Numeral.digitsValue_append (digits more : List Char) :
    digitsValue (digits ++ more) =
      10 ^ more.length * Nat.ofDigitChars 10 digits 0 + Nat.ofDigitChars 10 more 0 := by
  rw [← Nat.ofDigitChars_eq_ofDigitChars_zero, ← Nat.ofDigitChars_append]
  rfl

/-- **What is read is what is denoted.** -/
theorem Denotes.says {cs : List Char} {q : ℚ} (h : Denotes cs q) :
    ∃ digits exponent, Says (.finite false digits exponent) cs
      ∧ q = digits * 10 ^ exponent := by
  cases h with
  | whole hne hdigits =>
      have hsays := Says.finite .none (Magnitude.whole hne hdigits .none)
      rw [List.append_nil, List.nil_append] at hsays
      refine ⟨_, _, hsays, ?_⟩
      rw [zpow_zero, mul_one]
      rfl
  | @point digits fraction hne hdigits _ hfraction =>
      have hsays := Says.finite .none
        (Magnitude.point (fun hnil => hne hnil.1) hdigits hfraction .none)
      rw [List.append_nil, List.nil_append] at hsays
      refine ⟨_, _, hsays, ?_⟩
      rw [digitsValue_append, zero_sub, zpow_neg, zpow_natCast]
      push_cast
      field_simp

/-- A text denotes one number at most. -/
theorem Denotes.unique {cs : List Char} {q q' : ℚ} (h : Denotes cs q) (h' : Denotes cs q') :
    q = q' := by
  obtain ⟨digits, exponent, hsays, rfl⟩ := h.says
  obtain ⟨digits', exponent', hsays', rfl⟩ := h'.says
  have hsame := (read?_eq_some_iff.mpr hsays).symm.trans (read?_eq_some_iff.mpr hsays')
  injection hsame with hnumeral
  injection hnumeral with _ hdigits hexponent
  rw [hdigits, hexponent]

theorem Denotes.nonneg {cs : List Char} {q : ℚ} (h : Denotes cs q) : 0 ≤ q := by
  obtain ⟨digits, exponent, -, rfl⟩ := h.says
  positivity

/-- Every decimal with one fractional part at most denotes a number. -/
theorem Decimal.exists_denotes {n : ℕ} {cs : List Char} (h : Decimal n cs) (hle : n ≤ 1) :
    ∃ q, Denotes cs q := by
  obtain ⟨hne, hdigits, hfractions⟩ := h
  cases hfractions with
  | nil =>
      rw [List.append_nil]
      exact ⟨_, .whole hne hdigits⟩
  | cons hne' hfraction hmore =>
      obtain rfl := Nat.le_zero.mp (Nat.le_of_succ_le_succ hle)
      cases hmore with
      | nil =>
          rw [List.append_nil]
          exact ⟨_, .point hne hdigits hne' hfraction⟩

/-- The text of a number token that is returned denotes a number. -/
theorem Session.exists_denotes {rules : List Rule} {s : Session} {calls : List Call} {token : Token}
    (h : token ∈ s.returnedIn rules calls) (hkind : token.kind = .number) :
    ∃ q, Denotes token.value.toList q := by
  have heof : token.kind ≠ .eof := by
    rw [hkind]
    decide
  obtain ⟨lexeme, hwritten⟩ := written_of_mem_returnedIn h heof
  rw [hkind] at hwritten
  obtain ⟨n, hdecimal, hle⟩ := hwritten.decimal_value
  exact hdecimal.exists_denotes hle

/-! ## The values of leaves -/

namespace Binary64

/-- The greater the rank, the greater the number, and infinity is greater than all. -/
theorem extended_mono {rank rank' : ℕ} (h : rank ≤ rank') :
    extended false rank ≤ extended false rank' := by
  unfold extended
  by_cases hlt : rank' < infinity
  · rw [if_pos (lt_of_le_of_lt h hlt), if_pos hlt, Extended.ofRat_le]
    have hunits : (units rank : ℚ) ≤ units rank' := cast_units_le.mpr h
    simp only [Bool.false_eq_true, if_false, one_mul]
    exact div_le_div_of_nonneg_right hunits unitsInOne_pos.le
  · rw [if_neg hlt]
    exact le_top

end Binary64

namespace Expr

open Binary64 Bits Session

variable {token : Token} {q : ℚ}

/-- The leaf for a number token has the rank that is nearest to what the token denotes. -/
theorem ofNumber_of_denotes (hkind : token.kind = .number) (h : Denotes token.value.toList q) :
    ∃ rank, Nearest (q * unitsInOne) rank
      ∧ ofNumber token = .ok (number (ofRank false rank) token.span) := by
  obtain ⟨digits, exponent, hsays, rfl⟩ := h.says
  obtain ⟨rank, hnearest, hrank⟩ := exists_nearest_decimalRank digits exponent
  refine ⟨rank, hnearest, ?_⟩
  have hvalue : ofNumeral (.finite false digits exponent) = ofRank false rank := by
    unfold ofNumeral ofRank
    simp only [hrank]
  unfold ofNumber ofText?
  rw [if_pos hkind, read?_eq_some_iff.mpr hsays, ← hvalue]
  rfl

/-- **The leaf for a number has the rounded value.** Whatever calls are made, the text of a number
token that is returned denotes one number, and the leaf is made, with the span of the token. Its
bits are those that the number is rounded to. A leaf for a token that denotes the same number has
the same bits, however the two are written. One for a token that denotes a greater number has a
value that is not smaller. -/
theorem ofNumber_rounds (source : String) (file? : Option String) (calls : List Call)
    (h : token ∈ (start source file?).returnedIn Rule.table calls) (hkind : token.kind = .number) :
    ∃ q value, (∀ x, Denotes token.value.toList x ↔ x = q)
      ∧ ofNumber token = .ok (number value token.span)
      ∧ Rounded q value.toBits
      ∧ ∀ other q' value', other.kind = .number → Denotes other.value.toList q' →
        ofNumber other = .ok (number value' other.span) →
          (q = q' → value.toBits = value'.toBits)
            ∧ (q ≤ q' → ∃ x y, meaning? value.toBits = some x ∧ meaning? value'.toBits = some y
              ∧ x ≤ y) := by
  obtain ⟨q, hq⟩ := exists_denotes h hkind
  obtain ⟨rank, hnearest, hleaf⟩ := ofNumber_of_denotes hkind hq
  refine ⟨q, _, fun x => ⟨fun hx => hx.unique hq, fun hx => hx ▸ hq⟩, hleaf,
    hnearest.rounded hq.nonneg, ?_⟩
  intro other q' value' hkind' hq' hleaf'
  obtain ⟨rank', hnearest', hvalue'⟩ := ofNumber_of_denotes hkind' hq'
  obtain rfl : ofRank false rank' = value' := by
    injection hvalue'.symm.trans hleaf' with hnumber
    injection hnumber
  constructor
  · rintro rfl
    rw [hnearest.unique hnearest']
  · intro hqle
    have hrank := hnearest.rank_le hnearest' (mul_le_mul_of_nonneg_right hqle unitsInOne_pos.le)
    exact ⟨_, _, meaning?_toBits _ _, meaning?_toBits _ _,
      extended_mono (min_le_min_right infinity hrank)⟩

/-- Zeros in front and at the end are part of the token, and the leaf does not show them. -/
theorem ofNumber_rounds_zeros :
    ⟨.number, "007.00", ⟨⟨1, "shell"⟩, ⟨7, "shell"⟩⟩⟩ ∈
        (start "-007.00" none).returnedIn Rule.table [.next, .collect]
      ∧ ∃ value, ofNumber ⟨.number, "007.00", ⟨⟨1, "shell"⟩, ⟨7, "shell"⟩⟩⟩ =
          .ok (number value ⟨⟨1, "shell"⟩, ⟨7, "shell"⟩⟩)
        ∧ Rounded 7 value.toBits
        ∧ ∀ value' span, ofNumber ⟨.number, "7", span⟩ = .ok (number value' span) →
          value.toBits = value'.toBits := by
  have hmem : ⟨.number, "007.00", ⟨⟨1, "shell"⟩, ⟨7, "shell"⟩⟩⟩ ∈
      (start "-007.00" none).returnedIn Rule.table [.next, .collect] := by decide +kernel
  have hlong : Denotes "007.00".toList 7 := by
    have hpoint := @Denotes.point "007".toList "00".toList (by decide)
      (List.all_eq_true.mp (by decide)) (by decide) (List.all_eq_true.mp (by decide))
    have hdigits : Nat.ofDigitChars 10 "007".toList 0 = 7
        ∧ Nat.ofDigitChars 10 "00".toList 0 = 0 := by decide
    rw [hdigits.1, hdigits.2, Nat.cast_zero, zero_div, add_zero] at hpoint
    exact hpoint
  have hshort : Denotes "7".toList 7 :=
    @Denotes.whole "7".toList (by decide) (List.all_eq_true.mp (by decide))
  obtain ⟨q, value, hdenotes, hleaf, hrounded, hothers⟩ := ofNumber_rounds _ none _ hmem rfl
  obtain rfl := (hdenotes _).mp hlong
  exact ⟨hmem, value, hleaf, hrounded, fun value' span hleaf' =>
    (hothers _ _ value' rfl hshort hleaf').1 rfl⟩

end Expr

end ScriptFront
