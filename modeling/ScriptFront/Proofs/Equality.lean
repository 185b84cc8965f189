import ScriptFront.Proofs.Enclosing
import ScriptFront.Proofs.Values

/-!
# When expressions are equal

Two expressions are compared node by node, and all that is not a number is compared for identity.
Numbers are compared as numbers are, and this comparison is no identity: one value is not equal to
itself, and two zeros are equal that are not the same. So expressions are compared here by any
relation of values (`Expr.Alike`). What holds of the values then holds of the trees: symmetry and
transitivity do, and a tree is like itself just if all its numbers are (`Expr.alike_self_iff`).

The two exceptions do not occur in a source. The lexer knows no number with a sign, and whatever
number it returns has a value. For expressions that are made of such tokens (`Expr.OfTokens`) equal
is therefore the same as identical, down to the bits.
-/

namespace ScriptFront

namespace Binary64

variable {v w x : Binary64}

/-! ## Equal values -/

theorem equals_symm (h : v.equals w = true) : w.equals v = true := by
  obtain ⟨x, hv, hw⟩ := equals_iff.mp h
  exact equals_iff.mpr ⟨x, hw, hv⟩

theorem equals_trans (h : v.equals w = true) (h' : w.equals x = true) : v.equals x = true := by
  obtain ⟨y, hv, hw⟩ := equals_iff.mp h
  obtain ⟨z, hw', hx⟩ := equals_iff.mp h'
  obtain rfl : y = z := Option.some.inj (hw.symm.trans hw')
  exact equals_iff.mpr ⟨y, hv, hx⟩

/-- Only what is not a number is not equal to itself. -/
theorem equals_self_iff : v.equals v = true ↔ v ≠ nan := by
  rw [equals_iff]
  cases v with
  | nan =>
      rw [meaning?_nan]
      simp
  | number isNegative rank hle =>
      rw [meaning?_toBits]
      simp

/-- Among numbers without a sign the equal ones are the same. -/
theorem equals_ofRank_iff {rank rank' : ℕ} :
    (ofRank false rank).equals (ofRank false rank') = true ↔
      ofRank false rank = ofRank false rank' := by
  constructor
  · intro h
    have hrank : min rank infinity = min rank' infinity := by
      simpa [ofRank, equals] using h
    simp only [ofRank, hrank]
  · intro h
    rw [h]
    simp [ofRank, equals]

end Binary64

namespace Expr

open Binary64

/-! ## Trees of one shape -/

/-- Two expressions differ in their numbers at most, and where one has a number the other has one
that is related to it. -/
inductive Alike (R : Binary64 → Binary64 → Prop) : Expr → Expr → Prop where
  | number {value value' : Binary64} {span : Span} :
      R value value' → Alike R (number value span) (number value' span)
  | string {value : String} {span : Span} : Alike R (string value span) (string value span)
  | binary {left left' right right' : Expr} {operator : Token} {span : Span} :
      Alike R left left' → Alike R right right' →
      Alike R (binary left operator right span) (binary left' operator right' span)

/-- All numbers of an expression have a property. -/
def EveryNumber (P : Binary64 → Prop) (e : Expr) : Prop :=
  ∀ value span, number value span ∈ e.nodes → P value

variable {R S : Binary64 → Binary64 → Prop} {P : Binary64 → Prop} {e f g : Expr}

theorem everyNumber_number {value : Binary64} {span : Span} :
    EveryNumber P (number value span) ↔ P value := by
  simp [EveryNumber, nodes]

theorem everyNumber_string {value : String} {span : Span} : EveryNumber P (string value span) := by
  simp [EveryNumber, nodes]

theorem everyNumber_binary {left right : Expr} {operator : Token} {span : Span} :
    EveryNumber P (binary left operator right span) ↔
      EveryNumber P left ∧ EveryNumber P right := by
  simp only [EveryNumber, nodes, List.mem_cons, List.mem_append, reduceCtorEq, false_or]
  constructor
  · intro h
    exact ⟨fun value span hmem => h value span (Or.inl hmem),
      fun value span hmem => h value span (Or.inr hmem)⟩
  · rintro ⟨hleft, hright⟩ value span (hmem | hmem)
    · exact hleft value span hmem
    · exact hright value span hmem

theorem Alike.symm (h : Alike R e f) (hR : ∀ v w, R v w → S w v) : Alike S f e := by
  induction h with
  | number hvalue => exact .number (hR _ _ hvalue)
  | string => exact .string
  | binary _ _ ihleft ihright => exact .binary ihleft ihright

theorem Alike.trans (h : Alike R e f) (h' : Alike R f g)
    (hR : ∀ v w x, R v w → R w x → R v x) : Alike R e g := by
  induction h generalizing g with
  | number hvalue =>
      cases h' with
      | number hvalue' => exact .number (hR _ _ _ hvalue hvalue')
  | string => exact h'
  | binary _ _ ihleft ihright =>
      cases h' with
      | binary hleft hright => exact .binary (ihleft hleft) (ihright hright)

/-- **A tree is like itself just if all its numbers are.** -/
theorem alike_self_iff : Alike R e e ↔ EveryNumber (fun v => R v v) e := by
  induction e with
  | number value span =>
      rw [everyNumber_number]
      constructor
      · intro h
        cases h with
        | number hvalue => exact hvalue
      · exact .number
  | string value span => exact ⟨fun _ => everyNumber_string, fun _ => .string⟩
  | binary left operator right span ihleft ihright =>
      rw [everyNumber_binary, ← ihleft, ← ihright]
      constructor
      · intro h
        cases h with
        | binary hleft hright => exact ⟨hleft, hright⟩
      · rintro ⟨hleft, hright⟩
        exact .binary hleft hright

/-- Where two relations say the same of all numbers, they say the same of the trees. -/
theorem Alike.congr (h : Alike R e f) (he : EveryNumber P e) (hf : EveryNumber P f)
    (hR : ∀ v w, P v → P w → R v w → S v w) : Alike S e f := by
  induction h with
  | number hvalue =>
      exact .number (hR _ _ (everyNumber_number.mp he) (everyNumber_number.mp hf) hvalue)
  | string => exact .string
  | binary _ _ ihleft ihright =>
      obtain ⟨hleft, hright⟩ := everyNumber_binary.mp he
      obtain ⟨hleft', hright'⟩ := everyNumber_binary.mp hf
      exact .binary (ihleft hleft hleft') (ihright hright hright')

/-- Trees with the same numbers are the same. -/
theorem alike_eq_iff : Alike Eq e f ↔ e = f := by
  constructor
  · intro h
    induction h with
    | number hvalue => rw [hvalue]
    | string => rfl
    | binary _ _ ihleft ihright => rw [ihleft, ihright]
  · rintro rfl
    exact alike_self_iff.mpr fun _ _ _ => rfl

/-- **Expressions are equal if they are alike but for their numbers, and these are equal.** -/
theorem equals_iff_alike : e.equals f = true ↔ Alike (fun v w => v.equals w = true) e f := by
  constructor
  · intro h
    induction e generalizing f with
    | number value span =>
        cases f with
        | number value' span' =>
            simp only [equals, Bool.and_eq_true, beq_iff_eq] at h
            obtain ⟨hvalue, rfl⟩ := h
            exact .number hvalue
        | string _ _ => exact absurd h (by simp [equals])
        | binary _ _ _ _ => exact absurd h (by simp [equals])
    | string value span =>
        cases f with
        | number _ _ => exact absurd h (by simp [equals])
        | string value' span' =>
            simp only [equals, Bool.and_eq_true, beq_iff_eq] at h
            obtain ⟨rfl, rfl⟩ := h
            exact .string
        | binary _ _ _ _ => exact absurd h (by simp [equals])
    | binary left operator right span ihleft ihright =>
        cases f with
        | number _ _ => exact absurd h (by simp [equals])
        | string _ _ => exact absurd h (by simp [equals])
        | binary left' operator' right' span' =>
            simp only [equals, Bool.and_eq_true, beq_iff_eq] at h
            obtain ⟨⟨⟨hleft, rfl⟩, hright⟩, rfl⟩ := h
            exact .binary (ihleft hleft) (ihright hright)
  · intro h
    induction h with
    | number hvalue => simp [equals, hvalue]
    | string => simp [equals]
    | binary _ _ ihleft ihright => simp [equals, ihleft, ihright]

end Expr

/-! ## Expressions from a source -/

/-- The token is returned by some lexer, of any source and file, in answer to some calls. -/
def Token.IsReturned (token : Token) : Prop :=
  ∃ source file? calls, token ∈ (Session.start source file?).returnedIn Rule.table calls

namespace Expr

open Binary64

/-- All leaves of an expression are made from tokens that are returned, and all its operators are
such tokens. -/
inductive OfTokens : Expr → Prop where
  | number {token : Token} {e : Expr} : token.IsReturned → ofNumber token = .ok e → OfTokens e
  | string {token : Token} : token.IsReturned → OfTokens (ofString token)
  | binary {left right : Expr} {operator : Token} {span : Span} : OfTokens left →
      operator.IsReturned → OfTokens right → OfTokens (binary left operator right span)

variable {e f : Expr}

/-- **No number from a source has a sign**, and each has a value. -/
theorem OfTokens.everyNumber (h : OfTokens e) :
    EveryNumber (fun v => ∃ rank, v = ofRank false rank) e := by
  induction h with
  | @number token e hreturned hleaf =>
      obtain ⟨source, file?, calls, hmem⟩ := hreturned
      have hkind : token.kind = .number := by
        by_contra hkind
        have herror : ofNumber token = .error _ := if_neg hkind
        exact absurd (herror.symm.trans hleaf) (by simp)
      obtain ⟨q, hq⟩ := Session.exists_denotes hmem hkind
      obtain ⟨rank, -, hleaf'⟩ := ofNumber_of_denotes hkind hq
      obtain rfl := Except.ok.inj (hleaf'.symm.trans hleaf)
      exact everyNumber_number.mpr ⟨rank, rfl⟩
  | string _ => exact everyNumber_string
  | binary _ _ _ ihleft ihright => exact everyNumber_binary.mpr ⟨ihleft, ihright⟩

/-- So their equality is identity. -/
theorem OfTokens.equals_iff (he : OfTokens e) (hf : OfTokens f) : e.equals f = true ↔ e = f := by
  rw [equals_iff_alike, ← alike_eq_iff]
  constructor
  · intro h
    refine h.congr he.everyNumber hf.everyNumber ?_
    rintro v w ⟨rank, rfl⟩ ⟨rank', rfl⟩ hvalue
    exact equals_ofRank_iff.mp hvalue
  · intro h
    refine h.congr he.everyNumber hf.everyNumber ?_
    rintro v w ⟨rank, rfl⟩ ⟨rank', rfl⟩ hvalue
    exact equals_ofRank_iff.mpr hvalue

/-- **Equality is symmetric and transitive, and for what comes from a source it is identity.** Any
two expressions are equal or not whichever of them comes first, and two that are equal to a third
are equal. An expression is equal to itself just if all its numbers are numbers. If two are made
from tokens that are returned, of any sources and files, then they are equal just if they have the
same shape and at each node the same span, bits, string and operator. So they are equal just if they
are identical, and among such expressions equality is an equivalence. -/
theorem equals_is_identity :
    (∀ e f : Expr, e.equals f = true → f.equals e = true)
      ∧ (∀ e f g : Expr, e.equals f = true → f.equals g = true → e.equals g = true)
      ∧ (∀ e : Expr, e.equals e = true ↔ EveryNumber (· ≠ nan) e)
      ∧ (∀ e f : Expr, OfTokens e → OfTokens f →
        (e.equals f = true ↔ Alike (fun v w => v.toBits = w.toBits) e f)
          ∧ (e.equals f = true ↔ e = f))
      ∧ Equivalence fun e f : { e // OfTokens e } => e.1.equals f.1 = true := by
  have hsymm : ∀ e f : Expr, e.equals f = true → f.equals e = true := by
    intro e f h
    exact equals_iff_alike.mpr ((equals_iff_alike.mp h).symm fun _ _ => equals_symm)
  have htrans : ∀ e f g : Expr, e.equals f = true → f.equals g = true → e.equals g = true := by
    intro e f g h h'
    exact equals_iff_alike.mpr
      ((equals_iff_alike.mp h).trans (equals_iff_alike.mp h') fun _ _ _ => equals_trans)
  refine ⟨hsymm, htrans, ?_, ?_, ?_, ?_, ?_⟩
  · intro e
    rw [equals_iff_alike, alike_self_iff]
    simp only [equals_self_iff]
  · intro e f he hf
    have hidentical := he.equals_iff hf
    refine ⟨?_, hidentical⟩
    simp only [toBits_inj]
    exact hidentical.trans alike_eq_iff.symm
  · intro e
    exact (e.2.equals_iff e.2).mpr rfl
  · exact hsymm _ _
  · exact htrans _ _ _

/-- The same text in two files makes two expressions that are not equal. Outside of a source there
are one that is not equal to itself, and two that are equal and not identical. -/
theorem equals_is_identity_files :
    let tree (file : String) : Expr :=
      join (number (ofRank false 0x4000000000000000) ⟨⟨0, file⟩, ⟨3, file⟩⟩)
        ⟨.punct .plus, "", ⟨⟨3, file⟩, ⟨4, file⟩⟩⟩ (string "é" ⟨⟨4, file⟩, ⟨8, file⟩⟩)
    let zero (isNegative : Bool) : Expr :=
      number (.number isNegative 0 (Nat.zero_le _)) ⟨⟨0, "a"⟩, ⟨1, "a"⟩⟩
    OfTokens (tree "a") ∧ OfTokens (tree "b")
      ∧ (tree "a").equals (tree "a") = true ∧ (tree "a").equals (tree "b") = false
      ∧ (number nan ⟨⟨0, "a"⟩, ⟨1, "a"⟩⟩).equals (number nan ⟨⟨0, "a"⟩, ⟨1, "a"⟩⟩) = false
      ∧ (zero true).equals (zero false) = true ∧ zero true ≠ zero false := by
  intro tree zero
  have hreturned : ∀ file ∈ ["a", "b"],
      [(⟨.number, "2.0", ⟨⟨0, file⟩, ⟨3, file⟩⟩⟩ : Token),
          ⟨.punct .plus, "", ⟨⟨3, file⟩, ⟨4, file⟩⟩⟩, ⟨.string, "é", ⟨⟨4, file⟩, ⟨8, file⟩⟩⟩] ⊆
        (Session.start "2.0+\"é\"" (some file)).returnedIn Rule.table [.collect] := by
    decide +kernel
  have htree : ∀ file ∈ ["a", "b"], OfTokens (tree file) := by
    intro file hfile
    have hsubset := hreturned file hfile
    have hleaf : ofNumber ⟨.number, "2.0", ⟨⟨0, file⟩, ⟨3, file⟩⟩⟩ =
        .ok (number (ofRank false 0x4000000000000000) ⟨⟨0, file⟩, ⟨3, file⟩⟩) := by
      have hvalue : ofText? "2.0" = some (ofRank false 0x4000000000000000) := by decide +kernel
      unfold ofNumber
      simp only [hvalue, if_true]
    have hname := @OfTokens.string ⟨.string, "é", ⟨⟨4, file⟩, ⟨8, file⟩⟩⟩
      ⟨_, _, _, hsubset (by simp)⟩
    exact .binary (.number ⟨_, _, _, hsubset (by simp)⟩ hleaf) ⟨_, _, _, hsubset (by simp)⟩ hname
  have ha := htree "a" (by simp)
  have hb := htree "b" (by simp)
  obtain ⟨-, -, hself, hidentical, hequivalence⟩ := equals_is_identity
  refine ⟨ha, hb, hequivalence.refl ⟨_, ha⟩, ?_, ?_, rfl, ?_⟩
  · refine Bool.eq_false_iff.mpr fun h => ?_
    have hfile := congrArg (fun e => e.span.start.file) ((hidentical _ _ ha hb).2.mp h)
    exact absurd hfile (by decide)
  · refine Bool.eq_false_iff.mpr fun h => ?_
    exact (hself _).mp h nan _ List.mem_cons_self rfl
  · intro h
    injection h with hvalue
    injection hvalue with hsign
    exact absurd hsign (by decide)

end Expr

end ScriptFront
