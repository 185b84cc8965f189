import ScriptFront.Number.Numeral

/-!
# Double-precision numbers

The numbers of the IEEE 754 format binary64 that are not negative can be counted off in order of
size, from zero through the smallest of them to infinity. The place in this order is the rank of
a number, and it is also what its bit pattern says when read as an integer. So a number is held
here as a sign and a rank, beside the one value that is not a number.

Every finite number is a whole multiple of the unit `2 ^ -1074`. Below `2 ^ 53` units the ranks
count units; from there on each doubling of the size takes `2 ^ 52` ranks, and the step from one
rank to the next doubles with it. A fraction is therefore rounded in three steps: it is measured
in units, its size tells by how much the step has doubled, and the number of steps is rounded to
an integer, a half going to the even one. If that carries over into the next doubling, the rank
comes out right by itself.
-/

namespace ScriptFront

/-- The integer nearest to a fraction, and the even one of two that are equally near. -/
def roundHalfEven (num den : Nat) : Nat :=
  if 2 * (num % den) < den then num / den
  else if den < 2 * (num % den) then num / den + 1
  else num / den + num / den % 2

/-- A value of the format binary64, with all that are not a number taken for one. -/
inductive Binary64 where
  /-- The number of a rank with a sign. -/
  | number (negative : Bool) (rank : Nat) (rank_le : rank ≤ 2047 * Nat.pow 2 52)
  | nan
deriving DecidableEq, Repr

namespace Binary64

/-- The number of smallest units in one. -/
def unitsInOne : Nat := Nat.pow 2 1074

/-- The number of ranks between a power of two and the next. -/
def binade : Nat := Nat.pow 2 52

/-- The rank of infinity. -/
def infinity : Nat := 2047 * Nat.pow 2 52

/-- The rank of the number nearest to a fraction, if ranks went on past infinity. -/
def nearestRank (num den : Nat) : Nat :=
  let units := num * unitsInOne
  let doublings := (units / den).log2 - 52
  doublings * binade + roundHalfEven units (den * Nat.pow 2 doublings)

/-- The rank of an integer times a power of ten. A product that is plainly too large or too
small is not worked out, because its power of ten may be of any size. -/
def decimalRank (digits : Nat) (exponent : Int) : Nat :=
  if digits = 0 then 0
  else if 309 < exponent then infinity
  else if exponent + digits.log2 < -326 then 0
  else if 0 ≤ exponent then nearestRank (digits * Nat.pow 10 exponent.toNat) 1
  else nearestRank digits (Nat.pow 10 (-exponent).toNat)

/-- The number with a sign and a rank, or infinity if the rank goes past it. -/
def ofRank (negative : Bool) (rank : Nat) : Binary64 :=
  number negative (min rank infinity) (Nat.min_le_right rank infinity)

/-- The value nearest to a numeral. -/
def ofNumeral : Numeral → Binary64
  | .finite negative digits exponent => ofRank negative (decimalRank digits exponent)
  | .infinite negative => ofRank negative infinity
  | .nan => nan

/-- The value that a text says, if it says one. -/
def ofText? (text : String) : Option Binary64 := (Numeral.read? text.toList).map ofNumeral

/-- The bit pattern of a value, as an integer. -/
def toBits : Binary64 → Nat
  | number negative rank _ => (if negative then Nat.pow 2 63 else 0) + rank
  | nan => infinity + Nat.pow 2 51

/-- Whether two values are equal as numbers. The two zeros are, and what is not a number equals
nothing. -/
def equals : Binary64 → Binary64 → Bool
  | number negative rank _, number negative' rank' _ =>
      rank == rank' && (negative == negative' || rank == 0)
  | _, _ => false

/-! ## Rounding at work -/

/-- A tenth is rounded up. -/
example : (ofText? "0.1").map toBits = some 0x3FB999999999999A := by decide +kernel

/-- Just above half of the smallest number is the smallest number, and half of it is zero. -/
example :
    decimalRank 24703282292062328 (-340) = 1 ∧ nearestRank 1 (2 * unitsInOne) = 0 := by
  decide +kernel

/-- The first number that is rounded past all finite ones, and the one before it. -/
example :
    nearestRank (2 ^ 1024 - 2 ^ 970) 1 = infinity ∧
      nearestRank (2 ^ 1024 - 2 ^ 970 - 1) 1 = infinity - 1 := by
  decide +kernel

end Binary64

end ScriptFront
