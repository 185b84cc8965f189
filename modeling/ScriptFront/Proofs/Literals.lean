import ScriptFront.Expr.Basic
import ScriptFront.Proofs.Neighbours
import ScriptFront.Proofs.Numerals

/-!
# Numbers are always literals

A leaf for a number is made in two readings. The lexer finds where the number ends, by its own rule,
and the text is then read as a numeral, by another grammar that has nothing to do with the first.
The second reading may fail. It does not, because whatever can be written for a number token is
digits, or digits with a point among them (`Decimal.exists_magnitude`), and that says a number
without a sign.

So the failure is left to those who take some other token for a number. For these it is no question
of the text. A string is not a number though its content may read as one.
-/

namespace ScriptFront

/-- **Digits with one fractional part at most say an integer times a power of ten.** -/
theorem Decimal.exists_magnitude {n : Nat} {cs : List Char} (h : Decimal n cs) (hle : n ≤ 1) :
    ∃ digits exponent, Numeral.Magnitude digits exponent cs := by
  obtain ⟨hne, hdigits, hfractions⟩ := h
  cases hfractions with
  | nil => exact ⟨_, _, .whole hne hdigits .none⟩
  | cons _ hfraction hmore =>
      obtain rfl := Nat.le_zero.mp (Nat.le_of_succ_le_succ hle)
      cases hmore with
      | nil => exact ⟨_, _, .point (fun hnil => hne hnil.1) hdigits hfraction .none⟩

/-- What is written for a number is its value, and has one fractional part at most. -/
theorem Written.decimal_value {value : String} {lexeme : List Char}
    (h : Written .number value lexeme) : ∃ n, Decimal n value.toList ∧ n ≤ 1 := by
  cases h with
  | spelling htext => exact absurd htext (by simp [Kind.spelling?])
  | number hdecimal hle =>
      rw [String.toList_ofList]
      exact ⟨_, hdecimal, hle⟩

namespace Binary64

/-- What is said in digits without a minus sign has a value, and the sign bit of it is clear. -/
theorem ofNumeral_finite (digits : Nat) (exponent : Int) :
    ofNumeral (.finite false digits exponent) ≠ nan
      ∧ (ofNumeral (.finite false digits exponent)).toBits < Nat.pow 2 63 := by
  have hrank : min (decimalRank digits exponent) infinity ≤ infinity := Nat.min_le_right _ _
  have hbits : infinity < Nat.pow 2 63 := by decide
  refine ⟨nofun, ?_⟩
  show 0 + min (decimalRank digits exponent) infinity < Nat.pow 2 63
  omega

end Binary64

namespace Session

variable {rules : List Rule} {s : Session} {calls : List Call} {token : Token}

/-- A token that is returned was written somewhere, however long the source is. -/
theorem written_of_mem_returnedIn (h : token ∈ s.returnedIn rules calls)
    (hkind : token.kind ≠ .eof) : ∃ lexeme, Written token.kind token.value lexeme := by
  obtain ⟨before, call, later, -, hreturned⟩ := exists_of_mem_returnedIn h
  obtain ⟨cs, -, hmem⟩ := mem_results_of_returned hreturned
  obtain ⟨front, lexeme, rest, -, -, hcut | ⟨heof, -⟩⟩ := exists_of_ok_mem hmem
  · exact ⟨lexeme, Piece.written_of_cut hcut⟩
  · exact absurd heof hkind

end Session

namespace Expr

open Session

/-- **Every number that is returned has a value, and nothing else is taken for one.** Whatever calls
are made, the text of a number token that is returned says a number without a sign. The leaf for it
is made, with the value of that and the span of the token. The value is not the one that is no
number, and its sign bit is clear, so it is not the other zero. From a token of another kind no such
leaf is made, whatever its value says; the mistake has this value, and is where the token begins. -/
theorem ofNumber_of_mem_returnedIn (source : String) (file? : Option String) (calls : List Call)
    {token : Token} (h : token ∈ (start source file?).returnedIn Rule.table calls) :
    (token.kind = .number → ∃ numeral value,
        Numeral.Says numeral token.value.toList ∧ value = Binary64.ofNumeral numeral
          ∧ ofNumber token = .ok (number value token.span)
          ∧ value ≠ .nan ∧ value.toBits < Nat.pow 2 63)
      ∧ (token.kind ≠ .number →
        ofNumber token = .error ⟨.unreadableNumber token.value, token.span.start⟩) := by
  constructor
  · intro hkind
    have heof : token.kind ≠ .eof := by
      rw [hkind]
      decide
    obtain ⟨lexeme, hwritten⟩ := written_of_mem_returnedIn h heof
    rw [hkind] at hwritten
    obtain ⟨n, hdecimal, hle⟩ := hwritten.decimal_value
    obtain ⟨digits, exponent, hmagnitude⟩ := hdecimal.exists_magnitude hle
    have hsays : Numeral.Says (.finite false digits exponent) token.value.toList :=
      .finite .none hmagnitude
    refine ⟨_, _, hsays, rfl, ?_, Binary64.ofNumeral_finite digits exponent⟩
    unfold ofNumber Binary64.ofText?
    rw [if_pos hkind, Numeral.read?_eq_some_iff.mpr hsays]
    rfl
  · intro hkind
    exact if_neg hkind

/-- The zero has the sign in front of it as a token of its own. A string and a name may read as
numbers, and are none. -/
theorem ofNumber_of_mem_returnedIn_zero :
    ⟨.number, "000.0", ⟨⟨1, "shell"⟩, ⟨6, "shell"⟩⟩⟩ ∈
        (start "-000.0 \"12\" inf" none).returnedIn Rule.table [.next, .collect]
      ∧ (∃ numeral value, Numeral.Says numeral "000.0".toList ∧ value = Binary64.ofNumeral numeral
          ∧ ofNumber ⟨.number, "000.0", ⟨⟨1, "shell"⟩, ⟨6, "shell"⟩⟩⟩ =
            .ok (number value ⟨⟨1, "shell"⟩, ⟨6, "shell"⟩⟩)
          ∧ value ≠ .nan ∧ value.toBits < Nat.pow 2 63)
      ∧ (Binary64.ofText? "12").isSome ∧ (Binary64.ofText? "inf").isSome
      ∧ ∀ token ∈ (start "-000.0 \"12\" inf" none).returnedIn Rule.table [.next, .collect],
          token.value = "12" ∨ token.value = "inf" →
          token.kind ≠ .number
            ∧ ofNumber token = .error ⟨.unreadableNumber token.value, token.span.start⟩ := by
  have hnumber : ⟨.number, "000.0", ⟨⟨1, "shell"⟩, ⟨6, "shell"⟩⟩⟩ ∈
      (start "-000.0 \"12\" inf" none).returnedIn Rule.table [.next, .collect] := by decide +kernel
  have hkinds : ∀ token ∈ (start "-000.0 \"12\" inf" none).returnedIn Rule.table [.next, .collect],
      token.value = "12" ∨ token.value = "inf" → token.kind ≠ .number := by decide +kernel
  refine ⟨hnumber, (ofNumber_of_mem_returnedIn _ none _ hnumber).1 rfl, by decide +kernel,
    by decide +kernel, ?_⟩
  intro token htoken hvalue
  have hkind := hkinds token htoken hvalue
  exact ⟨hkind, (ofNumber_of_mem_returnedIn _ none _ htoken).2 hkind⟩

end Expr

end ScriptFront
