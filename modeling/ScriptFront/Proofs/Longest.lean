import ScriptFront.Lexeme.Piece

/-!
# Which rule applies

`Rule.longest` is a maximum, so it is known once one rule is known to reach farther than all
others (`longest_of_forall_lt`). For the rules of the language that is mostly a matter of the first
character. Characters come in sorts, and a rule reaches into a text only if the text begins with a
character of the sort of that rule (`sort_of_reach`). Words, numbers, separators and strings each
have a sort of their own, so where one of them begins no other rule reaches anywhere.

Only comments and marks share a sort. A comment begins with a mark but reaches farther than it,
and of two marks the longer one applies.
-/

namespace ScriptFront

namespace Rule

/-! ## The farthest reach -/

/-- No rule applies just if none reaches into the text. -/
theorem longest_eq_none_iff {rules : List Rule} {cs : List Char} :
    longest rules cs = none ↔ ∀ rule ∈ rules, rule.reach cs = 0 := by
  induction rules with
  | nil => simp [longest]
  | cons first others ih =>
      rw [longest, List.forall_mem_cons, ← ih]
      cases longest others cs with
      | none => simp
      | some best => simp only; split <;> simp

/-- Nothing reaches farther than the rule that applies. -/
theorem reach_le_of_longest {rules : List Rule} {cs : List Char} {rule : Rule} {n : Nat}
    (h : longest rules cs = some (rule, n)) : ∀ other ∈ rules, other.reach cs ≤ n := by
  induction rules generalizing rule n with
  | nil => simp
  | cons first others ih =>
      rw [longest] at h
      intro other hother
      cases hothers : longest others cs with
      | none =>
          have hnone := longest_eq_none_iff.mp hothers
          simp only [hothers, Option.ite_none_left_eq_some, Option.some.injEq,
            Prod.mk.injEq] at h
          obtain ⟨_, _, rfl⟩ := h
          rcases List.mem_cons.mp hother with rfl | hother
          · exact Nat.le_refl _
          · rw [hnone other hother]
            exact Nat.zero_le _
      | some best =>
          simp only [hothers] at h
          split at h <;> simp only [Option.some.injEq, Prod.mk.injEq] at h <;>
            obtain ⟨_, rfl⟩ := h
          · rename_i hlt
            rcases List.mem_cons.mp hother with rfl | hother
            · omega
            · exact @ih best.1 best.2 hothers other hother
          · rename_i hge
            rcases List.mem_cons.mp hother with rfl | hother
            · exact Nat.le_refl _
            · have := @ih best.1 best.2 hothers other hother
              omega

/-- **A rule that reaches farther than all others applies**, wherever it is listed. -/
theorem longest_of_forall_lt {rules : List Rule} {cs : List Char} {rule : Rule}
    (hmem : rule ∈ rules) (hpos : rule.reach cs ≠ 0)
    (hlt : ∀ other ∈ rules, other ≠ rule → other.reach cs < rule.reach cs) :
    longest rules cs = some (rule, rule.reach cs) := by
  -- the rule that applies reaches at least as far, so it cannot be another
  cases hlongest : longest rules cs with
  | none => exact absurd (longest_eq_none_iff.mp hlongest rule hmem) hpos
  | some best =>
      obtain ⟨other, n⟩ := best
      obtain ⟨hother, hreach, -⟩ := longest_mem hlongest
      have hle := reach_le_of_longest hlongest rule hmem
      by_cases heq : other = rule
      · rw [hreach, heq]
      · have := hlt other hother heq
        omega

/-- The table holds every rule. -/
theorem mem_table (rule : Rule) : rule ∈ table := by
  cases rule with
  | punct mark =>
      exact List.mem_append_right _ (List.mem_map.mpr ⟨mark, Punct.mem_all mark, rfl⟩)
  | _ => exact List.mem_append_left _ (by decide)

/-! ## Sorts of characters -/

theorem isWordStart_eq_false_of_isDigit {c : Char} (h : c.isDigit = true) :
    isWordStart c = false := by
  have hnine : c.val.toNat ≤ 57 := (Char.isDigit_iff_toNat.mp h).2
  have hunderscore : (c == '_') = false := by
    refine beq_false_of_ne ?_
    intro hc
    subst hc
    exact absurd h (by decide)
  -- the digits come before all letters
  have hupper : c.isUpper = false := by
    refine decide_eq_false fun hletter => ?_
    have : 65 ≤ c.val.toNat := UInt32.le_iff_toNat_le.mp hletter.1
    omega
  have hlower : c.isLower = false := by
    refine Bool.and_eq_false_imp.mpr fun hletter => ?_
    have : 97 ≤ c.val.toNat := UInt32.le_iff_toNat_le.mp (of_decide_eq_true hletter)
    omega
  show (c.isUpper || c.isLower || c == '_') = false
  rw [hupper, hlower, hunderscore]
  rfl

/-- The separators, one by one. -/
theorem isSeparator_iff {c : Char} :
    isSeparator c = true ↔ c = ' ' ∨ c = '\t' ∨ c = '\r' ∨ c = '\n' := by
  simp [isSeparator, or_assoc]

/-- What is no separator is no newline. -/
theorem ne_newline_of_isSeparator {c : Char} (h : isSeparator c = false) : c ≠ '\n' := by
  intro hc
  rw [hc] at h
  exact absurd h (by decide)

/-- A separator cannot go on with a word. -/
theorem isWordPart_eq_false_of_isSeparator {c : Char} (h : isSeparator c = true) :
    isWordPart c = false := by
  rcases isSeparator_iff.mp h with rfl | rfl | rfl | rfl <;> decide

/-- A separator is no digit. -/
theorem isDigit_eq_false_of_isSeparator {c : Char} (h : isSeparator c = true) :
    c.isDigit = false := by
  rcases isSeparator_iff.mp h with rfl | rfl | rfl | rfl <;> decide

/-- The sort of a character: what can begin with it. -/
def charSort (c : Char) : Nat :=
  if isWordStart c then 0
  else if c.isDigit then 1
  else if isSeparator c then 2
  else if c = '"' then 3
  else 4

/-- The sort of the characters that a rule begins with. -/
def sort : Rule → Nat
  | word => 0
  | number => 1
  | separators => 2
  | quote => 3
  | comment => 4
  | punct _ => 4

/-- A run that is not empty begins with a character that has the property. -/
theorem runLength_cons_ne_zero {p : Char → Bool} {c : Char} {cs : List Char} :
    runLength p (c :: cs) ≠ 0 ↔ p c = true := by
  unfold runLength
  rw [List.takeWhile_cons]
  split <;> simp_all

/-- Every mark begins with a character of the last sort. -/
theorem charSort_of_mark {mark : Punct} {c : Char} (h : mark.spelling.toList.head? = some c) :
    charSort c = 4 := by
  have hall : ∀ m ∈ Punct.all, m.spelling.toList.head?.all (charSort · == 4) = true := by decide
  have hmark := hall mark (Punct.mem_all mark)
  rw [h] at hmark
  exact beq_iff_eq.mp hmark

/-- No mark is written by nothing. -/
theorem mark_ne_nil (mark : Punct) : mark.spelling.toList ≠ [] := by
  cases mark <;> decide

/-- **A rule reaches into a text only if the text begins with a character of its sort.** -/
theorem sort_of_reach {rule : Rule} {c : Char} {cs : List Char}
    (h : rule.reach (c :: cs) ≠ 0) : charSort c = rule.sort := by
  cases rule with
  | word =>
      have hstart : isWordStart c = true := by
        by_cases hc : isWordStart c = true
        · exact hc
        · exact absurd (by simp [reach, hc]) h
      simp [charSort, sort, hstart]
  | number =>
      have hdigit : c.isDigit = true := by
        by_cases hrun : runLength Char.isDigit (c :: cs) = 0
        · exact absurd (by simp [reach, hrun]) h
        · exact runLength_cons_ne_zero.mp hrun
      simp [charSort, sort, hdigit, isWordStart_eq_false_of_isDigit hdigit]
  | separators =>
      have hsep : isSeparator c = true := runLength_cons_ne_zero.mp h
      rcases isSeparator_iff.mp hsep with rfl | rfl | rfl | rfl <;> decide
  | quote =>
      have hquote : c = '"' := by
        by_cases hc : c = '"'
        · exact hc
        · exact absurd (by simp [reach, hc]) h
      subst hquote
      decide
  | comment =>
      have hslash : c = '/' := by
        by_cases hc : '/' = c
        · exact hc.symm
        · exact absurd (by simp [reach, hc]) h
      subst hslash
      decide
  | punct mark =>
      refine @charSort_of_mark mark c ?_
      have hstarts : mark.spelling.toList <+: c :: cs := by
        by_cases hp : mark.spelling.toList.isPrefixOf (c :: cs) = true
        · exact List.isPrefixOf_iff_prefix.mp hp
        · exact absurd (by simp only [reach_punct, if_neg hp]) h
      cases hspelling : mark.spelling.toList with
      | nil => exact absurd hspelling (mark_ne_nil mark)
      | cons d ds =>
          rw [hspelling, List.cons_prefix_cons] at hstarts
          rw [List.head?_cons, hstarts.1]

/-- Where a rule with a sort of its own reaches, it applies. -/
theorem longest_of_sort {rule : Rule} {c : Char} {cs : List Char}
    (hown : ∀ other : Rule, other.sort = rule.sort → other = rule)
    (hpos : rule.reach (c :: cs) ≠ 0) :
    longest table (c :: cs) = some (rule, rule.reach (c :: cs)) := by
  refine longest_of_forall_lt (mem_table rule) hpos ?_
  intro other hother hne
  have hzero : other.reach (c :: cs) = 0 := by
    by_cases hreach : other.reach (c :: cs) = 0
    · exact hreach
    · have hsort := (sort_of_reach hreach).symm.trans (sort_of_reach hpos)
      exact absurd (hown other hsort) hne
  omega

/-! ## Comments and marks -/

/-- A mark reaches over its spelling, where the text begins with that. -/
theorem reach_mark (mark : Punct) (rest : List Char) :
    (punct mark).reach (mark.spelling.toList ++ rest) = mark.spelling.toList.length := by
  have hstarts : mark.spelling.toList.isPrefixOf (mark.spelling.toList ++ rest) = true :=
    List.isPrefixOf_iff_prefix.mpr (List.prefix_append _ _)
  simp only [reach_punct, if_pos hstarts]

/-- And nowhere else. -/
theorem prefix_of_reach_mark {mark : Punct} {cs : List Char} (h : (punct mark).reach cs ≠ 0) :
    mark.spelling.toList <+: cs ∧ (punct mark).reach cs = mark.spelling.toList.length := by
  by_cases hstarts : mark.spelling.toList.isPrefixOf cs = true
  · exact ⟨List.isPrefixOf_iff_prefix.mp hstarts, by simp only [reach_punct, if_pos hstarts]⟩
  · exact absurd (by simp only [reach_punct, if_neg hstarts]) h

/-- A comment begins with two slashes. -/
theorem prefix_of_reach_comment {cs : List Char} (h : comment.reach cs ≠ 0) :
    ['/', '/'] <+: cs := by
  by_cases hstarts : ['/', '/'].isPrefixOf cs = true
  · exact List.isPrefixOf_iff_prefix.mp hstarts
  · exact absurd (by simp only [reach, if_neg hstarts]) h

/-- **The longest mark applies**, where there is no comment. -/
theorem longest_mark {mark : Punct} {rest : List Char}
    (hlongest : ∀ other : Punct, other.spelling.toList <+: mark.spelling.toList ++ rest →
      other.spelling.toList.length ≤ mark.spelling.toList.length)
    (hcomment : ¬ ['/', '/'] <+: mark.spelling.toList ++ rest) :
    longest table (mark.spelling.toList ++ rest) =
      some (punct mark, mark.spelling.toList.length) := by
  have hreach := reach_mark mark rest
  have hpos : (punct mark).reach (mark.spelling.toList ++ rest) ≠ 0 := by
    rw [hreach]
    exact fun hzero => mark_ne_nil mark (List.length_eq_zero_iff.mp hzero)
  rw [← hreach]
  refine longest_of_forall_lt (mem_table _) hpos ?_
  intro other hother hne
  by_cases hzero : other.reach (mark.spelling.toList ++ rest) = 0
  · omega
  · -- only rules of the last sort reach into a text that begins with a mark
    obtain ⟨c, cs, hcs⟩ := List.exists_cons_of_ne_nil
      (fun hnil => mark_ne_nil mark (List.append_eq_nil_iff.mp hnil).1 :
        mark.spelling.toList ++ rest ≠ [])
    have hsort : other.sort = 4 := by
      rw [hcs] at hzero hpos
      exact (sort_of_reach hzero).symm.trans (sort_of_reach hpos)
    cases other with
    | comment => exact absurd (prefix_of_reach_comment hzero) hcomment
    | punct m =>
        obtain ⟨hstarts, hlength⟩ := prefix_of_reach_mark hzero
        have hle := hlongest m hstarts
        have hneq : m.spelling.toList.length ≠ mark.spelling.toList.length := by
          intro heq
          have hsame : m.spelling.toList = mark.spelling.toList :=
            (List.prefix_of_prefix_length_le hstarts (List.prefix_append _ _)
              (Nat.le_of_eq heq)).eq_of_length heq
          exact hne (congrArg punct (Punct.spelling_inj (String.toList_inj.mp hsame)))
        omega
    | _ => exact absurd hsort (by decide)

/-- A comment reaches farther than the slash it begins with. -/
theorem longest_comment (cs : List Char) :
    longest table ('/' :: '/' :: cs) =
      some (comment, 2 + runLength (· != '\n') cs) := by
  have hreach : comment.reach ('/' :: '/' :: cs) = 2 + runLength (· != '\n') cs := by
    simp [reach]
  have hpos : comment.reach ('/' :: '/' :: cs) ≠ 0 := by omega
  rw [← hreach]
  refine longest_of_forall_lt (mem_table _) hpos ?_
  intro other hother hne
  by_cases hzero : other.reach ('/' :: '/' :: cs) = 0
  · omega
  · have hsort : other.sort = 4 := (sort_of_reach hzero).symm.trans (sort_of_reach hpos)
    cases other with
    | comment => exact absurd rfl hne
    | punct m =>
        obtain ⟨hstarts, hlength⟩ := prefix_of_reach_mark hzero
        -- the only mark that begins with a slash is the slash
        have hone : ∀ p ∈ Punct.all, p.spelling.toList.head? = some '/' →
            p.spelling.toList.length = 1 := by decide
        have hhead : m.spelling.toList.head? = some '/' := by
          cases hspelling : m.spelling.toList with
          | nil => exact absurd hspelling (mark_ne_nil m)
          | cons d ds =>
              rw [hspelling, List.cons_prefix_cons] at hstarts
              rw [List.head?_cons, hstarts.1]
        have := hone m (Punct.mem_all m) hhead
        omega
    | _ => exact absurd hsort (by decide)

/-- A run is taken by its length. -/
theorem take_runLength (p : Char → Bool) (cs : List Char) :
    cs.take (runLength p cs) = cs.takeWhile p := by
  induction cs with
  | nil => rfl
  | cons c cs ih =>
      unfold runLength at ih ⊢
      rw [List.takeWhile_cons]
      split
      · rw [List.length_cons, List.take_succ_cons, ih]
      · rfl

theorem drop_runLength (p : Char → Bool) (cs : List Char) :
    cs.drop (runLength p cs) = cs.dropWhile p := by
  have h : cs.take (runLength p cs) ++ cs.drop (runLength p cs) =
      cs.takeWhile p ++ cs.dropWhile p := by
    rw [List.take_append_drop, List.takeWhile_append_dropWhile]
  rw [take_runLength] at h
  exact List.append_cancel_left h

end Rule

/-! ## The first piece, by its first character -/

namespace Piece

open Rule

variable {c : Char} {cs : List Char}

/-- A piece is made by the rule that applies. -/
theorem cut_of_longest {rule : Rule} {n : Nat}
    (h : longest table (c :: cs) = some (rule, n)) :
    cut table (c :: cs) = ofLexeme rule ((c :: cs).take n) ((c :: cs).drop n) := by
  unfold cut
  rw [h]

/-- **A word** takes all that can go on with it. -/
theorem cut_word (h : isWordStart c = true) :
    cut table (c :: cs) = ofWord (c :: cs.takeWhile isWordPart) (cs.dropWhile isWordPart) := by
  have hreach : word.reach (c :: cs) = runLength isWordPart cs + 1 := by
    simp [reach, h, Nat.add_comm]
  have hlongest := longest_of_sort (by intro other; cases other <;> simp [sort])
    (by omega : word.reach (c :: cs) ≠ 0)
  rw [hreach] at hlongest
  rw [cut_of_longest hlongest, List.take_succ_cons, List.drop_succ_cons, take_runLength,
    drop_runLength]
  rfl

/-- **A number** takes what its rule describes. -/
theorem cut_number (h : c.isDigit = true) :
    cut table (c :: cs) =
      ofNumber ((c :: cs).take (number.reach (c :: cs)))
        ((c :: cs).drop (number.reach (c :: cs))) := by
  have hrun : runLength Char.isDigit (c :: cs) ≠ 0 := runLength_cons_ne_zero.mpr h
  have hpos : number.reach (c :: cs) ≠ 0 := by
    simp only [reach, if_neg hrun]
    omega
  exact cut_of_longest (longest_of_sort (by intro other; cases other <;> simp [sort]) hpos)

/-- **A run of separators** is skipped whole. -/
theorem cut_separators (h : isSeparator c = true) :
    cut table (c :: cs) =
      skip (c :: cs.takeWhile isSeparator) (cs.dropWhile isSeparator) := by
  have hpos : separators.reach (c :: cs) ≠ 0 := runLength_cons_ne_zero.mpr h
  have hlongest := longest_of_sort (by intro other; cases other <;> simp [sort]) hpos
  rw [cut_of_longest hlongest]
  simp only [reach, take_runLength, drop_runLength, List.takeWhile_cons, List.dropWhile_cons, h,
    if_true]
  rfl

/-- **A quote** opens a string. -/
theorem cut_quote : cut table ('"' :: cs) = ofString ['"'] cs := by
  have hreach : quote.reach ('"' :: cs) = 1 := by simp [reach]
  have hlongest := longest_of_sort (by intro other; cases other <;> simp [sort])
    (by omega : quote.reach ('"' :: cs) ≠ 0)
  rw [hreach] at hlongest
  exact cut_of_longest hlongest

/-- **A comment** is skipped up to the end of its line. -/
theorem cut_comment :
    cut table ('/' :: '/' :: cs) =
      skip ('/' :: '/' :: cs.takeWhile (· != '\n')) (cs.dropWhile (· != '\n')) := by
  rw [cut_of_longest (longest_comment cs), Nat.add_comm, List.take_succ_cons,
    List.take_succ_cons, List.drop_succ_cons, List.drop_succ_cons, take_runLength, drop_runLength]
  rfl

/-- **A mark** that is not the start of a longer mark or of a comment is a token. -/
theorem cut_mark {mark : Punct} {rest : List Char}
    (hlongest : ∀ other : Punct, other.spelling.toList <+: mark.spelling.toList ++ rest →
      other.spelling.toList.length ≤ mark.spelling.toList.length)
    (hcomment : ¬ ['/', '/'] <+: mark.spelling.toList ++ rest) :
    cut table (mark.spelling.toList ++ rest) =
      found (.token (.punct mark) "" mark.spelling.toList rest) := by
  have h := longest_mark hlongest hcomment
  cases hspelling : mark.spelling.toList with
  | nil => exact absurd hspelling (mark_ne_nil mark)
  | cons d ds =>
      rw [hspelling, List.cons_append] at h
      rw [List.cons_append, cut_of_longest h]
      simp [ofLexeme]

end Piece

end ScriptFront
