import Mathlib.Data.List.TakeDrop
import ScriptFront.Number.Numeral

/-!
# What reads as a number

The reader of numerals (`Numeral.read?`) splits a text where it can and looks at what it has got.
Here the texts that it accepts are listed, with what each of them says, and without regard to how
they are read (`Numeral.Says`). There are three parts: a sign (`Sign`), which may be left out, then
one of the words, or digits with a point among them or none (`Magnitude`), and behind digits an
exponent (`Exponent`), which may be left out as well.

That the two agree (`Numeral.read?_eq_some_iff`) is a matter of first characters. No part begins
with a character that the part in front of it could go on with.
-/

namespace ScriptFront

namespace Numeral

/-! ## The grammar -/

/-- All characters are digits. -/
def AllDigits (cs : List Char) : Prop := ∀ c ∈ cs, c.isDigit = true

/-- A sign, and whether it is a minus sign. -/
inductive Sign : Bool → List Char → Prop where
  | none : Sign false []
  | plus : Sign false ['+']
  | minus : Sign true ['-']

/-- An exponent and its value. -/
inductive Exponent : Int → List Char → Prop where
  | none : Exponent 0 []
  | some {c : Char} {negative : Bool} {sign digits : List Char} :
      c = 'e' ∨ c = 'E' → Sign negative sign → digits ≠ [] → AllDigits digits →
      Exponent (if negative then -digitsValue digits else digitsValue digits)
        (c :: (sign ++ digits))

/-- Digits with or without a point, and an exponent: an integer times a power of ten. -/
inductive Magnitude : Nat → Int → List Char → Prop where
  | whole {digits tail : List Char} {exponent : Int} :
      digits ≠ [] → AllDigits digits → Exponent exponent tail →
      Magnitude (digitsValue digits) exponent (digits ++ tail)
  | point {whole fraction tail : List Char} {exponent : Int} :
      ¬ (whole = [] ∧ fraction = []) → AllDigits whole → AllDigits fraction →
      Exponent exponent tail →
      Magnitude (digitsValue (whole ++ fraction)) (exponent - fraction.length)
        (whole ++ '.' :: (fraction ++ tail))

/-- A word in letters of any case. -/
def Spells (word : String) (cs : List Char) : Prop := String.ofList (cs.map Char.toLower) = word

instance (word : String) (cs : List Char) : Decidable (Spells word cs) :=
  inferInstanceAs (Decidable (String.ofList (cs.map Char.toLower) = word))

/-- What a text says as a number. -/
inductive Says : Numeral → List Char → Prop where
  | finite {negative : Bool} {sign cs : List Char} {digits : Nat} {exponent : Int} :
      Sign negative sign → Magnitude digits exponent cs →
      Says (.finite negative digits exponent) (sign ++ cs)
  | infinite {negative : Bool} {sign cs : List Char} :
      Sign negative sign → Spells "inf" cs ∨ Spells "infinity" cs →
      Says (.infinite negative) (sign ++ cs)
  | nan {negative : Bool} {sign cs : List Char} :
      Sign negative sign → Spells "nan" cs → Says .nan (sign ++ cs)

/-! ## First characters -/

/-- Digits come before all letters. -/
theorem lt_of_isDigit {c : Char} (h : c.isDigit = true) : c.toNat < 58 :=
  Nat.lt_succ_of_le (Char.isDigit_iff_toNat.mp h).2

/-- No digit is a sign. -/
theorem ne_sign_of_isDigit {c : Char} (h : c.isDigit = true) : c ≠ '-' ∧ c ≠ '+' := by
  constructor
  · rintro rfl
    exact absurd h (by decide)
  · rintro rfl
    exact absurd h (by decide)

/-- What comes before all letters has no other case, so no word begins with it. -/
theorem Spells.le_toNat {word : String} {cs : List Char} (h : Spells word cs)
    (hword : word ∈ ["inf", "infinity", "nan"]) : ∀ c ∈ cs.head?, 58 ≤ c.toNat := by
  intro c hc
  refine Nat.le_of_not_lt fun hlt => ?_
  have hsame : ∀ n < 58, (Char.ofNat n).toLower = Char.ofNat n := by decide
  have hletters : ∀ text ∈ ["inf", "infinity", "nan"],
      (text.toList.head?.all fun d => 58 ≤ d.toNat) = true := by decide
  have hlower := hsame c.toNat hlt
  rw [Char.ofNat_toNat] at hlower
  have hfirst := hletters word hword
  rw [← h, String.toList_ofList, List.head?_map, hc, Option.map_some, hlower,
    Option.all_some] at hfirst
  exact Nat.not_le_of_lt hlt (of_decide_eq_true hfirst)

/-- Signs come before all letters too. -/
theorem Spells.ne_sign {word : String} {cs : List Char} (h : Spells word cs)
    (hword : word ∈ ["inf", "infinity", "nan"]) : ∀ c ∈ cs.head?, c ≠ '-' ∧ c ≠ '+' := by
  intro c hc
  have hle := h.le_toNat hword c hc
  constructor
  · rintro rfl
    exact absurd hle (by decide)
  · rintro rfl
    exact absurd hle (by decide)

/-- Behind a sign the text goes on with no other. -/
theorem Sign.splitSign_append {negative : Bool} {sign rest : List Char} (h : Sign negative sign)
    (hrest : ∀ c ∈ rest.head?, c ≠ '-' ∧ c ≠ '+') :
    splitSign (sign ++ rest) = (negative, rest) := by
  cases h with
  | none =>
      cases rest with
      | nil => rfl
      | cons c rest =>
          obtain ⟨hminus, hplus⟩ := hrest c rfl
          rw [List.nil_append, splitSign, if_neg hminus, if_neg hplus]
  | plus => rfl
  | minus => rfl

/-- A text is split into a sign and the rest. -/
theorem exists_sign (cs : List Char) :
    ∃ sign, Sign (splitSign cs).1 sign ∧ cs = sign ++ (splitSign cs).2 := by
  cases cs with
  | nil => exact ⟨[], .none, rfl⟩
  | cons c cs =>
      by_cases hminus : c = '-'
      · subst hminus
        exact ⟨['-'], .minus, rfl⟩
      · by_cases hplus : c = '+'
        · subst hplus
          exact ⟨['+'], .plus, rfl⟩
        · rw [splitSign, if_neg hminus, if_neg hplus]
          exact ⟨[], .none, rfl⟩

/-- Digits are split from what is behind them. -/
theorem span_digits {digits rest : List Char} (h : AllDigits digits)
    (hrest : ∀ c ∈ rest.head?, c.isDigit = false) :
    (digits ++ rest).span Char.isDigit = (digits, rest) := by
  have hnone : rest.takeWhile Char.isDigit = [] ∧ rest.dropWhile Char.isDigit = rest := by
    cases rest with
    | nil => exact ⟨rfl, rfl⟩
    | cons c rest =>
        have hc : ¬ c.isDigit = true := by simp [hrest c rfl]
        exact ⟨List.takeWhile_cons_of_neg hc, List.dropWhile_cons_of_neg hc⟩
  rw [List.span_eq_takeWhile_dropWhile, List.takeWhile_append_of_pos h,
    List.dropWhile_append_of_pos h, hnone.1, hnone.2, List.append_nil]

/-- All that is split from the front are digits. -/
theorem exists_span (cs : List Char) :
    AllDigits (cs.span Char.isDigit).1
      ∧ cs = (cs.span Char.isDigit).1 ++ (cs.span Char.isDigit).2 := by
  rw [List.span_eq_takeWhile_dropWhile]
  exact ⟨List.all_eq_true.mp List.all_takeWhile, List.takeWhile_append_dropWhile.symm⟩

/-! ## Exponents -/

/-- An exponent begins with its letter. -/
theorem Exponent.head {exponent : Int} {cs : List Char} (h : Exponent exponent cs) :
    ∀ c ∈ cs.head?, c.isDigit = false ∧ c ≠ '.' := by
  cases h with
  | none => simp
  | some hc _ _ _ =>
      intro d hd
      obtain rfl := Option.some.inj hd
      rcases hc with rfl | rfl
      · decide
      · decide

/-- **What is read as an exponent is one.** -/
theorem exponent?_eq_some_iff {cs : List Char} {exponent : Int} :
    exponent? cs = some exponent ↔ Exponent exponent cs := by
  constructor
  · intro h
    cases cs with
    | nil =>
        obtain rfl := Option.some.inj h
        exact .none
    | cons c cs =>
        obtain ⟨sign, hsign, hcs⟩ := exists_sign cs
        unfold exponent? at h
        dsimp only at h
        split at h
        · rename_i hread
          obtain ⟨hc, hne, hdigits⟩ := hread
          obtain rfl := Option.some.inj h
          have hexponent := Exponent.some hc hsign hne (List.all_eq_true.mp hdigits)
          rwa [← hcs] at hexponent
        · exact absurd h (by simp)
  · intro h
    cases h with
    | none => rfl
    | @some c negative sign digits hc hsign hne hdigits =>
        have hsplit : splitSign (sign ++ digits) = (negative, digits) :=
          hsign.splitSign_append fun d hd =>
            ne_sign_of_isDigit (hdigits d (List.mem_of_mem_head? hd))
        simp only [exponent?, hsplit]
        exact if_pos ⟨hc, hne, List.all_eq_true.mpr hdigits⟩

/-! ## Digits and points -/

/-- A fractional part is split off behind a point, and without one there is none. -/
theorem splitFraction_cases (cs : List Char) :
    splitFraction cs = ([], cs)
      ∨ ∃ fraction rest, splitFraction cs = (fraction, rest) ∧ AllDigits fraction
        ∧ cs = '.' :: (fraction ++ rest) := by
  cases cs with
  | nil => exact Or.inl rfl
  | cons c cs =>
      by_cases hc : c = '.'
      · subst hc
        obtain ⟨hdigits, hcs⟩ := exists_span cs
        exact Or.inr ⟨_, _, rfl, hdigits, congrArg _ hcs⟩
      · exact Or.inl (if_neg hc)

/-- **What is read as digits are digits**, with a point or without. -/
theorem decimal?_eq_some_iff {negative : Bool} {cs : List Char} {numeral : Numeral} :
    decimal? negative cs = some numeral ↔
      ∃ digits exponent, numeral = .finite negative digits exponent
        ∧ Magnitude digits exponent cs := by
  constructor
  · intro h
    obtain ⟨hwhole, hcs⟩ := exists_span cs
    rcases hspan : cs.span Char.isDigit with ⟨whole, after⟩
    rw [hspan] at hwhole hcs
    rcases splitFraction_cases after with hsplit | ⟨fraction, rest, hsplit, hfraction, rfl⟩
    · simp only [decimal?, hspan, hsplit] at h
      split at h
      · exact absurd h (by simp)
      · rename_i hne
        obtain ⟨exponent, hexponent, rfl⟩ := Option.map_eq_some_iff.mp h
        rw [List.append_nil, List.length_nil, Int.natCast_zero, Int.sub_zero, hcs]
        refine ⟨_, _, rfl, .whole ?_ hwhole (exponent?_eq_some_iff.mp hexponent)⟩
        exact fun hnil => hne ⟨hnil, trivial⟩
    · simp only [decimal?, hspan, hsplit] at h
      split at h
      · exact absurd h (by simp)
      · rename_i hne
        obtain ⟨exponent, hexponent, rfl⟩ := Option.map_eq_some_iff.mp h
        rw [hcs]
        exact ⟨_, _, rfl, .point hne hwhole hfraction (exponent?_eq_some_iff.mp hexponent)⟩
  · rintro ⟨digits, exponent, rfl, hmagnitude⟩
    cases hmagnitude with
    | @whole digits tail exponent hne hdigits hexponent =>
        have hspan := span_digits hdigits fun c hc => (hexponent.head c hc).1
        have hsplit : splitFraction tail = ([], tail) := by
          cases tail with
          | nil => rfl
          | cons c tail => exact if_neg (hexponent.head c rfl).2
        simp only [decimal?, hspan, hsplit]
        rw [if_neg fun hnil => hne hnil.1, exponent?_eq_some_iff.mpr hexponent, List.append_nil]
        simp
    | @point whole fraction tail exponent hne hwhole hfraction hexponent =>
        have hspan : (whole ++ '.' :: (fraction ++ tail)).span Char.isDigit =
            (whole, '.' :: (fraction ++ tail)) :=
          span_digits hwhole fun c hc => by
            obtain rfl := Option.some.inj hc
            decide
        have hsplit : splitFraction ('.' :: (fraction ++ tail)) = (fraction, tail) :=
          span_digits hfraction fun c hc => (hexponent.head c hc).1
        simp only [decimal?, hspan, hsplit]
        rw [if_neg hne, exponent?_eq_some_iff.mpr hexponent]
        rfl

/-! ## Numerals -/

/-- A digit or a point comes first in a magnitude. -/
theorem Magnitude.head {digits : Nat} {exponent : Int} {cs : List Char}
    (h : Magnitude digits exponent cs) :
    ∃ c rest, cs = c :: rest ∧ (c.isDigit = true ∨ c = '.') := by
  cases h with
  | whole hne hdigits _ =>
      obtain ⟨c, more, rfl⟩ := List.exists_cons_of_ne_nil hne
      exact ⟨c, _, rfl, Or.inl (hdigits c List.mem_cons_self)⟩
  | @point whole fraction tail exponent _ hwhole _ _ =>
      cases whole with
      | nil => exact ⟨'.', _, rfl, Or.inr rfl⟩
      | cons c more => exact ⟨c, _, rfl, Or.inl (hwhole c List.mem_cons_self)⟩

/-- So no sign does. -/
theorem Magnitude.ne_sign {digits : Nat} {exponent : Int} {cs : List Char}
    (h : Magnitude digits exponent cs) : ∀ c ∈ cs.head?, c ≠ '-' ∧ c ≠ '+' := by
  obtain ⟨c, rest, rfl, hc⟩ := h.head
  intro d hd
  obtain rfl := Option.some.inj hd
  rcases hc with hc | rfl
  · exact ne_sign_of_isDigit hc
  · decide

/-- And it is none of the words. -/
theorem Magnitude.not_spells {digits : Nat} {exponent : Int} {cs : List Char}
    (h : Magnitude digits exponent cs) {word : String} (hword : word ∈ ["inf", "infinity", "nan"]) :
    ¬ Spells word cs := by
  obtain ⟨c, rest, rfl, hc⟩ := h.head
  intro hspells
  have hle := hspells.le_toNat hword c rfl
  rcases hc with hc | rfl
  · exact absurd (lt_of_isDigit hc) (Nat.not_lt_of_le hle)
  · exact absurd hle (by decide)

/-- Behind a sign a text is read as one of the words, or as digits. -/
theorem read?_append {negative : Bool} {sign cs : List Char} (h : Sign negative sign)
    (hcs : ∀ c ∈ cs.head?, c ≠ '-' ∧ c ≠ '+') :
    read? (sign ++ cs) =
      if Spells "inf" cs ∨ Spells "infinity" cs then some (infinite negative)
      else if Spells "nan" cs then some nan
      else decimal? negative cs := by
  simp only [read?, h.splitSign_append hcs]
  rfl

/-- **What is read as a number is one.** -/
theorem read?_eq_some_iff {cs : List Char} {numeral : Numeral} :
    read? cs = some numeral ↔ Says numeral cs := by
  constructor
  · intro h
    obtain ⟨sign, hsign, hcs⟩ := exists_sign cs
    rcases hsplit : splitSign cs with ⟨negative, rest⟩
    rw [hsplit] at hsign hcs
    rw [hcs]
    simp only [read?, hsplit] at h
    split at h
    · rename_i hword
      obtain rfl := Option.some.inj h
      exact .infinite hsign hword
    · split at h
      · rename_i hword
        obtain rfl := Option.some.inj h
        exact .nan hsign hword
      · obtain ⟨digits, exponent, rfl, hmagnitude⟩ := decimal?_eq_some_iff.mp h
        exact .finite hsign hmagnitude
  · intro h
    cases h with
    | finite hsign hmagnitude =>
        rw [read?_append hsign hmagnitude.ne_sign,
          if_neg (not_or.mpr ⟨hmagnitude.not_spells (by simp), hmagnitude.not_spells (by simp)⟩),
          if_neg (hmagnitude.not_spells (by simp))]
        exact decimal?_eq_some_iff.mpr ⟨_, _, rfl, hmagnitude⟩
    | infinite hsign hword =>
        have hfirst := hword.elim (fun hinf => hinf.ne_sign (by simp))
          (fun hinfinity => hinfinity.ne_sign (by simp))
        rw [read?_append hsign hfirst, if_pos hword]
    | nan hsign hword =>
        rw [read?_append hsign (hword.ne_sign (by simp)), if_neg ?_, if_pos hword]
        rintro (hinf | hinfinity)
        · exact absurd (hinf.symm.trans hword) (by decide)
        · exact absurd (hinfinity.symm.trans hword) (by decide)

/-- A point needs a digit on one of its sides, and a letter for an exponent a digit behind it. -/
example :
    read? "5.".toList = some (.finite false 5 0) ∧ read? "+.5E-2".toList = some (.finite false 5 (-3))
      ∧ read? ".".toList = none ∧ read? "5e".toList = none := by
  decide +kernel

end Numeral

end ScriptFront
