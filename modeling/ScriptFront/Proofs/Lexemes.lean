import ScriptFront.Proofs.Decimals

/-!
# What the rules describe

A rule is given by how far it reaches. `Describes` is the other side: the lexemes themselves, by
what they are made of. The two fit together as they should. A rule reaches over a lexeme that it
describes (`describes_take_reach`), and over no shorter one than any that begins the text
(`Describes.length_le_reach`), so its reach is the length of the longest start that it describes.

From this alone follows how a reach changes when the text does. If the text is cut short, no rule
reaches farther than before, and one that did not reach past the cut reaches as far as before. So
a rule that applied still does, as long as its lexeme is left whole (`longest_of_isPrefix`). And no
rule for tokens reaches over a separator, since none describes a lexeme that has one in it.
-/

namespace ScriptFront

namespace Rule

/-- The lexemes that a rule describes. -/
inductive Describes : Rule → List Char → Prop where
  | word {c : Char} {cs : List Char} :
      isWordStart c = true → (∀ d ∈ cs, isWordPart d = true) → Describes word (c :: cs)
  | number {n : Nat} {cs : List Char} : Decimal n cs → n ≤ 1 → Describes number cs
  | separators {cs : List Char} :
      cs ≠ [] → (∀ d ∈ cs, isSeparator d = true) → Describes separators cs
  | quote : Describes quote ['"']
  | comment {body : List Char} : '\n' ∉ body → Describes comment ('/' :: '/' :: body)
  | punct (mark : Punct) : Describes (punct mark) mark.spelling.toList

/-! ## The reach of a rule -/

/-- Every character of a run has the property of the run. -/
theorem forall_mem_takeWhile (p : Char → Bool) (cs : List Char) :
    ∀ d ∈ cs.takeWhile p, p d = true :=
  List.all_eq_true.mp List.all_takeWhile

/-- A run is as long as any start of the text that could be part of it. -/
theorem length_le_runLength {p : Char → Bool} {run : List Char} (h : ∀ d ∈ run, p d = true)
    (rest : List Char) : run.length ≤ runLength p (run ++ rest) := by
  unfold runLength
  rw [List.takeWhile_append_of_pos h, List.length_append]
  omega

/-- The rule for numbers reaches over digits and at most one fractional part. -/
theorem describes_number {cs : List Char} (h : number.reach cs ≠ 0) :
    Describes number (cs.take (number.reach cs)) := by
  have hrun : runLength Char.isDigit cs ≠ 0 := by
    intro hzero
    exact h (by simp only [reach, if_pos hzero])
  have hne : cs.takeWhile Char.isDigit ≠ [] := fun hnil => hrun (List.length_eq_zero_iff.mpr hnil)
  have hdigits := forall_mem_takeWhile Char.isDigit cs
  rw [(Piece.take_reach_number hrun).1]
  by_cases hzero : fraction (cs.dropWhile Char.isDigit) = 0
  · rw [hzero, List.take_zero]
    exact .number (.mk hne hdigits .nil) (Nat.zero_le 1)
  · obtain ⟨ds, rest, hcs, hds, hall, hlength⟩ := exists_of_fraction_ne_zero hzero
    rw [hlength, hcs, List.take_succ_cons, List.take_left]
    have hone : Fractions 1 ('.' :: (ds ++ [])) := .cons hds hall .nil
    rw [List.append_nil] at hone
    exact .number (.mk hne hdigits hone) (Nat.le_refl 1)

/-- **What a rule reaches over is a lexeme that it describes.** -/
theorem describes_take_reach {rule : Rule} {cs : List Char} (h : rule.reach cs ≠ 0) :
    Describes rule (cs.take (rule.reach cs)) := by
  cases rule with
  | word =>
      cases cs with
      | nil => exact absurd rfl h
      | cons c cs =>
          by_cases hc : isWordStart c = true
          · have hreach : word.reach (c :: cs) = runLength isWordPart cs + 1 := by
              simp only [reach, if_pos hc]
              omega
            rw [hreach, List.take_succ_cons, take_runLength]
            exact .word hc (forall_mem_takeWhile isWordPart cs)
          · exact absurd (by simp only [reach, if_neg hc]) h
  | number => exact describes_number h
  | separators =>
      have hrun : separators.reach cs = runLength isSeparator cs := rfl
      rw [hrun] at h ⊢
      rw [take_runLength]
      refine .separators ?_ (forall_mem_takeWhile isSeparator cs)
      exact fun hnil => h (List.length_eq_zero_iff.mpr hnil)
  | quote =>
      by_cases hhead : cs.head? = some '"'
      · obtain ⟨rest, rfl⟩ := List.head?_eq_some_iff.mp hhead
        exact .quote
      · exact absurd (by simp only [reach, if_neg hhead]) h
  | comment =>
      obtain ⟨rest, rfl⟩ := prefix_of_reach_comment h
      have hreach : comment.reach (['/', '/'] ++ rest) = runLength (· != '\n') rest + 1 + 1 := by
        simp [reach]
        omega
      rw [hreach, List.cons_append, List.cons_append, List.nil_append, List.take_succ_cons,
        List.take_succ_cons, take_runLength]
      refine .comment fun hmem => ?_
      exact absurd (forall_mem_takeWhile (· != '\n') rest '\n' hmem) (by decide)
  | punct mark =>
      obtain ⟨hstarts, hlength⟩ := prefix_of_reach_mark h
      rw [hlength, ← List.prefix_iff_eq_take.mp hstarts]
      exact .punct mark

/-- **And no lexeme that a rule describes and a text begins with is longer.** -/
theorem Describes.length_le_reach {rule : Rule} {lexeme cs : List Char}
    (h : Describes rule lexeme) (hstarts : lexeme <+: cs) : lexeme.length ≤ rule.reach cs := by
  obtain ⟨rest, rfl⟩ := hstarts
  cases h with
  | @word c cs hc hcs =>
      have hrun := length_le_runLength hcs rest
      simp only [List.cons_append, reach, if_pos hc, List.length_cons]
      omega
  | @number n cs hdecimal hn =>
      obtain ⟨hne, hdigits, hfractions⟩ := hdecimal
      rename_i digits fs
      have hpos := List.length_pos_iff.mpr hne
      have hrun := length_le_runLength hdigits (fs ++ rest)
      rw [List.append_assoc]
      simp only [reach, if_neg (by omega : runLength Char.isDigit (digits ++ (fs ++ rest)) ≠ 0),
        drop_runLength, (takeWhile_digits hdigits _).2, List.length_append]
      cases hfractions with
      | nil =>
          rw [List.length_nil]
          omega
      | @cons m ds gs hds hall hgs =>
          -- one fractional part at most, so nothing comes behind this one
          have hm : m = 0 := by omega
          subst hm
          cases hgs
          have hstop : ('.' :: (ds ++ []) ++ rest).dropWhile Char.isDigit =
              '.' :: (ds ++ rest) := by
            rw [List.append_nil]
            rfl
          rw [hstop, fraction_point hds hall, List.append_nil, List.length_cons]
          rw [List.append_nil] at hrun
          omega
  | separators hne hcs => exact length_le_runLength hcs rest
  | quote => exact Nat.le_refl 1
  | @comment body hbody =>
      have hall : ∀ d ∈ body, (d != '\n') = true :=
        fun d hd => bne_iff_ne.mpr fun heq => hbody (heq ▸ hd)
      have hrun := length_le_runLength hall rest
      simp [reach]
      omega
  | punct mark => exact Nat.le_of_eq (reach_mark mark rest).symm

/-- No rule reaches past the end of the text. -/
theorem reach_le_length (rule : Rule) (cs : List Char) : rule.reach cs ≤ cs.length := by
  cases rule with
  | word =>
      cases cs with
      | nil => exact Nat.le_refl 0
      | cons c cs =>
          have := runLength_le_length isWordPart cs
          simp only [reach, List.length_cons]
          split <;> omega
  | number =>
      have hrun := runLength_le_length Char.isDigit cs
      simp only [reach]
      split
      · omega
      · by_cases hzero : fraction (cs.drop (runLength Char.isDigit cs)) = 0
        · omega
        · obtain ⟨ds, rest, hcs, -, -, hlength⟩ := exists_of_fraction_ne_zero hzero
          have hdrop := congrArg List.length hcs
          simp only [List.length_drop, List.length_cons, List.length_append] at hdrop
          omega
  | separators => exact runLength_le_length isSeparator cs
  | quote =>
      cases cs with
      | nil => exact Nat.le_refl 0
      | cons c cs =>
          simp only [reach, List.length_cons]
          split <;> omega
  | comment =>
      simp only [reach]
      split
      · rename_i hstarts
        have htwo : 2 ≤ cs.length := (List.isPrefixOf_iff_prefix.mp hstarts).length_le
        have := runLength_le_length (· != '\n') (cs.drop 2)
        rw [List.length_drop] at this
        omega
      · omega
  | punct mark =>
      simp only [reach]
      split
      · rename_i hstarts
        exact (List.isPrefixOf_iff_prefix.mp hstarts).length_le
      · omega

/-! ## A text that is cut short -/

variable {rule : Rule} {cs front : List Char}

/-- In a start of a text no rule reaches farther than in the text. -/
theorem reach_le_of_isPrefix (rule : Rule) (h : front <+: cs) :
    rule.reach front ≤ rule.reach cs := by
  by_cases hzero : rule.reach front = 0
  · omega
  · have hle := (describes_take_reach hzero).length_le_reach ((List.take_prefix _ _).trans h)
    have := reach_le_length rule front
    rw [List.length_take] at hle
    omega

/-- And a rule that does not reach past it reaches as far. -/
theorem reach_eq_of_isPrefix (h : front <+: cs) (hle : rule.reach cs ≤ front.length) :
    rule.reach front = rule.reach cs := by
  have hback := reach_le_of_isPrefix rule h
  by_cases hzero : rule.reach cs = 0
  · omega
  · have hlength : (cs.take (rule.reach cs)).length = rule.reach cs :=
      List.length_take_of_le (reach_le_length rule cs)
    have hstarts := List.prefix_of_prefix_length_le (List.take_prefix (rule.reach cs) cs) h
      (by rw [hlength]; exact hle)
    have := (describes_take_reach hzero).length_le_reach hstarts
    omega

/-- **A rule that applied still applies when nothing is cut off but what its lexeme left.** -/
theorem longest_of_isPrefix {rules : List Rule} {n : Nat} (h : front <+: cs)
    (hlongest : longest rules cs = some (rule, n)) (hle : n ≤ front.length) :
    longest rules front = some (rule, n) := by
  induction rules generalizing rule n with
  | nil => simp [longest] at hlongest
  | cons first others ih =>
      have hfirst := reach_le_of_isPrefix first h
      rw [longest] at hlongest ⊢
      cases hothers : longest others cs with
      | none =>
          -- no other rule reached into the text, so none reaches into a start of it
          simp only [hothers, Option.ite_none_left_eq_some, Option.some.injEq,
            Prod.mk.injEq] at hlongest
          obtain ⟨hpos, rfl, rfl⟩ := hlongest
          have hnone : longest others front = none := by
            rw [longest_eq_none_iff] at hothers ⊢
            intro other hother
            have := reach_le_of_isPrefix other h
            rw [hothers other hother] at this
            omega
          simp only [hnone, reach_eq_of_isPrefix h hle, if_neg hpos]
      | some best =>
          obtain ⟨other, m⟩ := best
          simp only [hothers] at hlongest
          split at hlongest <;> simp only [Option.some.injEq, Prod.mk.injEq] at hlongest <;>
            obtain ⟨rfl, rfl⟩ := hlongest
          · rename_i hlt
            simp only [ih hothers hle]
            rw [if_pos (by omega)]
          · rename_i hge
            rw [reach_eq_of_isPrefix h hle]
            -- whichever of the others is best now, it reached no farther before
            cases hnow : longest others front with
            | none =>
                have hpos := (longest_mem hothers).2.2
                simp only
                rw [if_neg (by omega)]
            | some now =>
                obtain ⟨hmem, hreach, -⟩ := @longest_mem others front now.1 now.2 hnow
                have hnow_le := reach_le_of_isPrefix now.1 h
                have hbest := reach_le_of_longest hothers now.1 hmem
                simp only
                rw [if_neg (by omega)]

/-! ## Separators -/

/-- A decimal has no separator in it. -/
theorem isSeparator_eq_false_of_decimal {n : Nat} {cs : List Char} (h : Decimal n cs) :
    ∀ d ∈ cs, isSeparator d = false := by
  intro d hd
  refine eq_false_of_ne_true fun hsep => ?_
  rcases h.mem d hd with hdigit | rfl
  · rw [isDigit_eq_false_of_isSeparator hsep] at hdigit
    exact absurd hdigit Bool.false_ne_true
  · exact absurd hsep (by decide)

/-- No character that begins a word is a separator. -/
theorem isSeparator_eq_false_of_isWordStart {c : Char} (h : isWordStart c = true) :
    isSeparator c = false := by
  refine eq_false_of_ne_true fun hsep => ?_
  rcases isSeparator_iff.mp hsep with rfl | rfl | rfl | rfl <;> exact absurd h (by decide)

/-- **A lexeme of a token has no separator in it**, as far as the rules describe it. -/
theorem isSeparator_eq_false_of_describes {lexeme : List Char} (h : Describes rule lexeme)
    (hsep : rule ≠ separators) (hcomment : rule ≠ comment) :
    ∀ d ∈ lexeme, isSeparator d = false := by
  cases h with
  | @word c cs hc hcs =>
      intro d hd
      rcases List.mem_cons.mp hd with rfl | hd
      · exact isSeparator_eq_false_of_isWordStart hc
      · refine eq_false_of_ne_true fun hd' => ?_
        have hpart := hcs d hd
        rw [isWordPart_eq_false_of_isSeparator hd'] at hpart
        exact Bool.false_ne_true hpart
  | number hdecimal _ => exact isSeparator_eq_false_of_decimal hdecimal
  | separators _ _ => exact absurd rfl hsep
  | quote =>
      intro d hd
      rw [List.mem_singleton.mp hd]
      decide
  | comment _ => exact absurd rfl hcomment
  | punct mark =>
      have hall : ∀ m ∈ Punct.all, m.spelling.toList.any isSeparator = false := by decide
      intro d hd
      refine eq_false_of_ne_true fun hd' => ?_
      have hany := List.any_eq_true.mpr ⟨d, hd, hd'⟩
      rw [hall mark (Punct.mem_all mark)] at hany
      exact Bool.false_ne_true hany

/-- A start of a text that goes past a character holds it. -/
theorem mem_take_append {cs : List Char} {n : Nat} (h : cs.length < n) (d : Char)
    (more : List Char) : d ∈ (cs ++ d :: more).take n := by
  rw [List.take_append, List.take_cons (by omega)]
  exact List.mem_append_right _ List.mem_cons_self

/-- So a rule for tokens reaches up to a separator at most. -/
theorem reach_append_le {d : Char} (hd : isSeparator d = true) (hsep : rule ≠ separators)
    (hcomment : rule ≠ comment) (cs more : List Char) :
    rule.reach (cs ++ d :: more) ≤ cs.length := by
  refine Nat.le_of_not_lt fun hlt => ?_
  have hdescribes := describes_take_reach (by omega : rule.reach (cs ++ d :: more) ≠ 0)
  have hfalse := isSeparator_eq_false_of_describes hdescribes hsep hcomment d
    (mem_take_append hlt d more)
  rw [hd] at hfalse
  exact absurd hfalse (by decide)

/-! ## Fractional parts -/

/-- Fractional parts do not reach past the end of the text. -/
theorem fractions_le_length (cs : List Char) : fractions cs ≤ cs.length := by
  fun_induction fractions cs with
  | case1 cs hzero => exact Nat.zero_le _
  | case2 cs hne ih =>
      obtain ⟨ds, rest, rfl, -, -, hlength⟩ := exists_of_fraction_ne_zero hne
      rw [hlength, List.drop_succ_cons, List.drop_left] at ih ⊢
      simp only [List.length_cons, List.length_append]
      omega

/-- In a start of a text they do not reach farther than in the text. -/
theorem fractions_le_of_isPrefix (h : front <+: cs) : fractions front ≤ fractions cs := by
  obtain ⟨n, hn⟩ := exists_fractions front
  have hle := hn.length_le ((List.take_prefix _ _).trans h)
  rwa [List.length_take_of_le (fractions_le_length front)] at hle

/-- A separator ends them. -/
theorem fractions_append {d : Char} (hd : isSeparator d = true) (cs more : List Char) :
    fractions (cs ++ d :: more) = fractions cs := by
  have hback := fractions_le_of_isPrefix (List.prefix_append cs (d :: more))
  obtain ⟨n, hn⟩ := exists_fractions (cs ++ d :: more)
  -- with a digit in front they would be a decimal, and no decimal has a separator in it
  have hdecimal : Decimal n (['0'] ++ (cs ++ d :: more).take (fractions (cs ++ d :: more))) :=
    .mk (by simp) (List.forall_mem_singleton.mpr rfl) hn
  have hnot : d ∉ (cs ++ d :: more).take (fractions (cs ++ d :: more)) := by
    intro hmem
    have hfalse := isSeparator_eq_false_of_decimal hdecimal d (List.mem_append_right _ hmem)
    rw [hd] at hfalse
    exact absurd hfalse (by decide)
  have hle : fractions (cs ++ d :: more) ≤ cs.length :=
    Nat.le_of_not_lt fun hlt => hnot (mem_take_append hlt d more)
  have hstarts := List.prefix_of_prefix_length_le
    (List.take_prefix (fractions (cs ++ d :: more)) (cs ++ d :: more))
    (List.prefix_append cs (d :: more))
    (by rw [List.length_take_of_le (fractions_le_length _)]; exact hle)
  have := hn.length_le hstarts
  rw [List.length_take_of_le (fractions_le_length _)] at this
  omega

end Rule

end ScriptFront
