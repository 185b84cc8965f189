import ScriptFront.Proofs.Blanks
import ScriptFront.Proofs.ClosingQuote
import ScriptFront.Proofs.Cursor
import ScriptFront.Proofs.Decimals

/-!
# What can be wrong, and where

`Fault` says what a text must look like for there to be something wrong at its start. It does not
mention rules, pieces or items. A string is not closed if every quote behind the first is escaped,
a number is malformed if a decimal with two fractional parts or more stands there, and a character
is invalid if no token begins with it.

The cases of the proof are the sorts of characters, since the first character settles which rule
applies and also which fault is possible. Words cannot be wrong. For numbers and strings the work
is done elsewhere (`Piece.cut_decimal`, `StringBody.read?_eq_none_iff`). What is left are the
marks. Nearly all their first characters are marks of their own, so a text that begins with
one of these has a token. Only `&` and `|` must be doubled (`exists_mark_iff`).
-/

namespace ScriptFront

open Rule

/-- The characters that are marks of their own. -/
def markChars : List Char :=
  ['[', ']', '{', '}', '(', ')', '=', '!', '<', '>', '.', ';', ':', '?', ',', '+', '-', '/', '*',
    '%']

/-- Whether a token can begin with a character, whatever follows. -/
def beginsToken (c : Char) : Bool :=
  c.isAlphanum || c == '_' || c == '"' || markChars.contains c

/-- What is wrong at the start of a text, where there is nothing to skip. -/
def Fault (cs : List Char) : Cause → Prop
  | .unterminatedString =>
      ∃ body, cs = '"' :: body
        ∧ ∀ front back, body = front ++ '"' :: back → isEscaped front = true
  | .malformedNumber literal =>
      ∃ n, 2 ≤ n ∧ Decimal n literal.toList ∧ literal.toList <+: cs
        ∧ ∀ m other, 2 ≤ m → Decimal m other → other <+: cs →
          other.length ≤ literal.toList.length
  | .invalidCharacter c =>
      ∃ rest, cs = c :: rest ∧ beginsToken c = false
        ∧ ¬ ((c = '&' ∨ c = '|') ∧ rest.head? = some c)
  | .unreadableNumber _ => False
  | .sourceTooLarge _ => False

/-! ## Marks -/

/-- **Where a text begins with a mark.** -/
theorem exists_mark_iff {c : Char} {cs : List Char} :
    (∃ mark : Punct, mark.spelling.toList <+: c :: cs) ↔
      c ∈ markChars ∨ (c = '&' ∨ c = '|') ∧ cs.head? = some c := by
  constructor
  · -- every mark begins with one of these characters, apart from the two that are doubled
    intro h
    obtain ⟨mark, hstarts⟩ := h
    have hall : ∀ m ∈ Punct.all, m.spelling.toList.head?.any markChars.contains = true
        ∨ m.spelling.toList = ['&', '&'] ∨ m.spelling.toList = ['|', '|'] := by decide
    rcases hall mark (Punct.mem_all mark) with hmark | hmark
    · cases hspelling : mark.spelling.toList with
      | nil => exact absurd hspelling (mark_ne_nil mark)
      | cons d ds =>
          rw [hspelling] at hstarts hmark
          rw [← (List.cons_prefix_cons.mp hstarts).1]
          exact Or.inl (List.contains_iff_mem.mp hmark)
    · have hdouble : ∃ d, (d = '&' ∨ d = '|') ∧ mark.spelling.toList = [d, d] := by
        rcases hmark with hmark | hmark
        · exact ⟨'&', Or.inl rfl, hmark⟩
        · exact ⟨'|', Or.inr rfl, hmark⟩
      obtain ⟨d, hd, hmark⟩ := hdouble
      rw [hmark] at hstarts
      obtain ⟨rest, hrest⟩ := hstarts
      injection hrest with hc hcs
      rw [← hc, ← hcs]
      exact Or.inr ⟨hd, rfl⟩
  · intro h
    rcases h with hc | ⟨hc, hhead⟩
    · have hall : markChars.all (fun d => Punct.all.any (·.spelling.toList == [d])) = true := by
        decide
      obtain ⟨mark, -, hmark⟩ := List.any_eq_true.mp (List.all_eq_true.mp hall c hc)
      exact ⟨mark, by rw [beq_iff_eq.mp hmark]; exact List.prefix_append [c] cs⟩
    · obtain ⟨rest, rfl⟩ := List.head?_eq_some_iff.mp hhead
      rcases hc with rfl | rfl
      · exact ⟨.and, List.prefix_append ['&', '&'] rest⟩
      · exact ⟨.or, List.prefix_append ['|', '|'] rest⟩

/-! ## One sort of character after the other -/

variable {c : Char} {cs : List Char} {cause : Cause}

/-- A token begins with a letter of a word, a digit, a quote or a mark. -/
theorem beginsToken_eq (c : Char) :
    beginsToken c = (isWordStart c || c.isDigit || c == '"' || markChars.contains c) := by
  unfold beginsToken isWordStart Char.isAlphanum
  rw [Bool.or_right_comm c.isAlpha]

/-- **What is wrong can be told from the first character.** -/
theorem Fault.cases (h : Fault (c :: cs) cause) :
    (c = '"' ∧ cause = .unterminatedString)
      ∨ (c.isDigit = true ∧ ∃ literal, cause = .malformedNumber literal)
      ∨ (beginsToken c = false ∧ cause = .invalidCharacter c) := by
  cases cause with
  | unterminatedString =>
      obtain ⟨body, hbody, -⟩ := h
      injection hbody with hc _
      exact Or.inl ⟨hc, rfl⟩
  | malformedNumber literal =>
      obtain ⟨n, -, hdecimal, hstarts, -⟩ := h
      obtain ⟨d, rest, hliteral, hd⟩ := hdecimal.exists_cons
      rw [hliteral] at hstarts
      rw [(List.cons_prefix_cons.mp hstarts).1] at hd
      exact Or.inr (Or.inl ⟨hd, literal, rfl⟩)
  | invalidCharacter d =>
      obtain ⟨rest, hrest, hbegins, -⟩ := h
      injection hrest with hc _
      rw [← hc] at hbegins ⊢
      exact Or.inr (Or.inr ⟨hbegins, rfl⟩)
  | unreadableNumber text => exact h.elim
  | sourceTooLarge size => exact h.elim

namespace Piece

/-- Nothing is wrong with a word. -/
theorem mistake_iff_of_isWordStart (h : isWordStart c = true) :
    cut table (c :: cs) = found (.mistake cause) ↔ Fault (c :: cs) cause := by
  have hbegins : beginsToken c = true := by rw [beginsToken_eq, h]; rfl
  constructor
  · intro hcut
    rw [cut_word h] at hcut
    unfold ofWord at hcut
    split at hcut <;> exact absurd hcut (by simp)
  · intro hfault
    rcases hfault.cases with ⟨rfl, -⟩ | ⟨hdigit, -⟩ | ⟨hfalse, -⟩
    · exact absurd h (by decide)
    · rw [isWordStart_eq_false_of_isDigit hdigit] at h
      exact absurd h Bool.false_ne_true
    · rw [hbegins] at hfalse
      exact absurd hfalse (by decide)

/-- A string is wrong if it is not closed. -/
theorem mistake_iff_of_quote :
    cut table ('"' :: cs) = found (.mistake cause) ↔ Fault ('"' :: cs) cause := by
  rw [cut_quote, ofString]
  constructor
  · intro hcut
    split at hcut
    · rename_i hnone
      injection hcut with hcut
      injection hcut with hcause
      rw [← hcause]
      exact ⟨cs, rfl, fun front back hcs => StringBody.read?_eq_none_iff.mp hnone front back hcs⟩
    · exact absurd hcut (by simp)
  · intro hfault
    rcases hfault.cases with ⟨-, rfl⟩ | ⟨hdigit, -⟩ | ⟨hfalse, -⟩
    · obtain ⟨body, hbody, hescaped⟩ := hfault
      injection hbody with _ hcs
      subst hcs
      rw [StringBody.read?_eq_none_iff.mpr hescaped]
    · exact absurd hdigit (by decide)
    · exact absurd hfalse (by decide)

/-- A number is wrong if it goes on with another fractional part. -/
theorem mistake_iff_of_isDigit (h : c.isDigit = true) :
    cut table (c :: cs) = found (.mistake cause) ↔ Fault (c :: cs) cause := by
  have hbegins : beginsToken c = true := by
    rw [beginsToken_eq, h, Bool.or_true]
    rfl
  obtain ⟨n, hdecimal⟩ := exists_decimal h cs
  rw [cut_decimal h hdecimal]
  constructor
  · intro hcut
    split at hcut
    · exact absurd hcut (by simp)
    · rename_i hn
      injection hcut with hcut
      injection hcut with hcause
      rw [← hcause]
      refine ⟨n, by omega, ?_, ?_, ?_⟩
      · rwa [String.toList_ofList]
      · rw [String.toList_ofList]
        exact longestDecimal_isPrefix _
      · intro m other _ hother hstarts
        rw [String.toList_ofList]
        exact hother.length_le hstarts
  · intro hfault
    rcases hfault.cases with ⟨rfl, -⟩ | ⟨-, literal, rfl⟩ | ⟨hfalse, -⟩
    · exact absurd h (by decide)
    · obtain ⟨m, hm, hliteral, hstarts, hmax⟩ := hfault
      -- the longest decimal has all the points of this one, so it is as faulty and not longer
      have hle := List.prefix_of_prefix_length_le hstarts (longestDecimal_isPrefix _)
        (hliteral.length_le hstarts)
      have hcount := hle.sublist.count_le '.'
      rw [hliteral.count_point, hdecimal.count_point] at hcount
      have hlength := hmax n _ (by omega) hdecimal (longestDecimal_isPrefix _)
      rw [if_neg (by omega), ← hliteral.eq_longestDecimal hstarts hlength, String.ofList_toList]
    · rw [hbegins] at hfalse
      exact absurd hfalse (by decide)

/-- Elsewhere something is wrong if there is no mark. -/
theorem mistake_iff_of_else (hword : isWordStart c = false) (hdigit : c.isDigit = false)
    (hsep : isSeparator c = false) (hquote : c ≠ '"') :
    cut table (c :: cs) = found (.mistake cause) ↔ Fault (c :: cs) cause := by
  have hbegins : beginsToken c = markChars.contains c := by
    rw [beginsToken_eq, hword, hdigit, beq_false_of_ne hquote, Bool.false_or, Bool.false_or,
      Bool.false_or]
  have hsort : charSort c = 4 := by
    simp [charSort, hword, hdigit, hsep, hquote]
  cases hlongest : longest table (c :: cs) with
  | none =>
      -- no rule reaches into the text, so there is no mark at its start
      have hcut : cut table (c :: cs) = found (.mistake (.invalidCharacter c)) := by
        rw [cut, hlongest]
      have hmarks : ¬ ∃ mark : Punct, mark.spelling.toList <+: c :: cs := by
        intro h
        obtain ⟨mark, rest, hrest⟩ := h
        have hreach := reach_mark mark rest
        rw [hrest, longest_eq_none_iff.mp hlongest _ (mem_table _)] at hreach
        exact mark_ne_nil mark (List.length_eq_zero_iff.mp hreach.symm)
      rw [exists_mark_iff, not_or] at hmarks
      rw [hcut]
      constructor
      · intro heq
        injection heq with heq
        injection heq with hcause
        rw [← hcause]
        refine ⟨cs, rfl, ?_, hmarks.2⟩
        rw [hbegins]
        exact eq_false_of_ne_true fun hmem => hmarks.1 (List.contains_iff_mem.mp hmem)
      · intro hfault
        rcases hfault.cases with ⟨hc, -⟩ | ⟨hc, -⟩ | ⟨-, rfl⟩
        · exact absurd hc hquote
        · rw [hdigit] at hc
          exact absurd hc Bool.false_ne_true
        · rfl
  | some best =>
      obtain ⟨rule, n⟩ := best
      obtain ⟨-, hreach, hpos⟩ := longest_mem hlongest
      have hrule : rule.reach (c :: cs) ≠ 0 := by omega
      -- a mark or a comment begins here, and both begin with a mark
      have hmark : c ∈ markChars ∨ (c = '&' ∨ c = '|') ∧ cs.head? = some c := by
        have hfour := (sort_of_reach hrule).symm.trans hsort
        cases rule with
        | punct mark => exact exists_mark_iff.mp ⟨mark, (prefix_of_reach_mark hrule).1⟩
        | comment =>
            rw [← (List.cons_prefix_cons.mp (prefix_of_reach_comment hrule)).1]
            exact Or.inl (by decide)
        | _ => exact absurd hfour (by decide)
      have hnot : ∀ other, cut table (c :: cs) ≠ found (.mistake other) := by
        intro other heq
        rw [cut_of_longest hlongest] at heq
        have hfour := (sort_of_reach hrule).symm.trans hsort
        cases rule with
        | punct mark => exact absurd heq (by simp [ofLexeme])
        | comment => exact absurd heq (by simp [ofLexeme])
        | _ => exact absurd hfour (by decide)
      constructor
      · intro heq
        exact absurd heq (hnot cause)
      · intro hfault
        rcases hfault.cases with ⟨hc, -⟩ | ⟨hc, -⟩ | ⟨hfalse, rfl⟩
        · exact absurd hc hquote
        · rw [hdigit] at hc
          exact absurd hc Bool.false_ne_true
        · obtain ⟨rest, hrest, -, hdouble⟩ := hfault
          injection hrest with _ hcs
          subst hcs
          rcases hmark with hmem | hpair
          · rw [hbegins, List.contains_iff_mem.mpr hmem] at hfalse
            exact absurd hfalse (by decide)
          · exact absurd hpair hdouble

/-- **A mistake is made just where there is a fault.** -/
theorem mistake_iff (hsep : isSeparator c = false) :
    cut table (c :: cs) = found (.mistake cause) ↔ Fault (c :: cs) cause := by
  cases hword : isWordStart c with
  | true => exact mistake_iff_of_isWordStart hword
  | false =>
      cases hdigit : c.isDigit with
      | true => exact mistake_iff_of_isDigit hdigit
      | false =>
          by_cases hquote : c = '"'
          · rw [hquote]
            exact mistake_iff_of_quote
          · exact mistake_iff_of_else hword hdigit hsep hquote

end Piece

/-! ## From any place in a source -/

/-- Nothing is wrong with the end of a text. -/
theorem not_fault_nil (cause : Cause) : ¬ Fault [] cause := by
  intro h
  cases cause with
  | unterminatedString =>
      obtain ⟨body, hbody, -⟩ := h
      exact absurd hbody (by simp)
  | malformedNumber literal =>
      obtain ⟨n, -, hdecimal, hstarts, -⟩ := h
      obtain ⟨d, rest, hliteral, -⟩ := hdecimal.exists_cons
      rw [hliteral] at hstarts
      exact absurd (List.prefix_nil.mp hstarts) (by simp)
  | invalidCharacter c =>
      obtain ⟨rest, hrest, -⟩ := h
      exact absurd hrest (by simp)
  | unreadableNumber text => exact h
  | sourceTooLarge size => exact h

/-- **A scan comes to a mistake just if there is a fault behind the blanks.** -/
theorem Scan.finding_eq_mistake_iff {cs : List Char} {cause : Cause} :
    (Scan.of table cs).finding = .mistake cause ↔ Fault (afterBlanks cs) cause := by
  obtain ⟨behind, hreads⟩ := Scan.of_reads table cs
  have hcut := hreads.cut
  rw [hreads.eq_afterBlanks] at hcut
  cases hbehind : afterBlanks cs with
  | nil =>
      rw [hreads.eof_iff.mpr (hreads.eq_afterBlanks.trans hbehind)]
      constructor
      · intro h
        exact absurd h (by simp)
      · intro h
        exact absurd h (not_fault_nil cause)
  | cons c rest =>
      rw [hbehind] at hcut
      rw [← Piece.mistake_iff (isSeparator_of_afterBlanks hbehind), hcut]
      simp

namespace Session

variable {s : Session} {back : List Char}

/-- A step returns an error just if its scan found a mistake, and says where that is. -/
theorem settle_eq_error_iff {scan : Scan} {error : Error} (h : s.found scan ≤ maxOffset) :
    (s.settle scan).1 = .error error ↔
      scan.finding = .mistake error.cause ∧ error.position = ⟨s.found scan, s.file⟩ := by
  obtain ⟨cause, position⟩ := error
  cases hf : scan.finding with
  | eof => rw [settle_of_eof hf]; simp
  | token kind value lexeme rest => rw [settle_of_token hf]; simp
  | mistake other =>
      rw [settle_of_mistake hf, positionAt_of_le h]
      simp [eq_comm]

/-- **Mistakes are made just where something is wrong.** From any place in a source that is not too
long, let the blanks behind it be skipped. If there is a fault in what follows, the next token is
refused for that fault and at that offset, and otherwise there is a next token. There is one fault
at most, none at the end of the source, and it is never about reading a number or the size of the
source. -/
theorem nextToken?_error_iff_fault (hsize : s.size ≤ maxOffset)
    (hplace : s.remainder? = some back) :
    ∃ blank result after, back = blank ++ afterBlanks back
      ∧ s.nextToken? table = some (result, after)
      ∧ (∀ error, result = .error error ↔
          Fault (afterBlanks back) error.cause
            ∧ error.position = ⟨s.pos + Text.width blank, s.file⟩)
      ∧ ((∀ cause, ¬ Fault (afterBlanks back) cause) → ∃ token, result = .ok token)
      ∧ ∀ cause, Fault (afterBlanks back) cause →
          s.pos + Text.width blank < s.size
            ∧ (∀ other, Fault (afterBlanks back) other → other = cause)
            ∧ (∀ text, cause ≠ .unreadableNumber text) ∧ ∀ size, cause ≠ .sourceTooLarge size := by
  obtain ⟨behind, hreads⟩ := Scan.of_reads table back
  have hwidth := found_add_width hplace hreads
  rw [hreads.eq_afterBlanks] at hwidth
  have herror : ∀ error, (s.settle (Scan.of table back)).1 = .error error ↔
      Fault (afterBlanks back) error.cause
        ∧ error.position = ⟨s.found (Scan.of table back), s.file⟩ := by
    intro error
    rw [settle_eq_error_iff (by omega), Scan.finding_eq_mistake_iff]
  refine ⟨(Scan.of table back).lead, (s.settle (Scan.of table back)).1,
    (s.settle (Scan.of table back)).2, (Scan.lead_append_afterBlanks back).symm,
    nextToken?_eq hsize hplace, herror, ?_, ?_⟩
  · intro hnone
    cases hresult : (s.settle (Scan.of table back)).1 with
    | ok token => exact ⟨token, rfl⟩
    | error error => exact absurd ((herror error).mp hresult).1 (hnone error.cause)
  · intro cause hfault
    have hfinding := Scan.finding_eq_mistake_iff.mpr hfault
    refine ⟨?_, ?_, ?_, ?_⟩
    · have hne : Text.width (afterBlanks back) ≠ 0 := by
        intro hzero
        rw [Text.width_eq_zero_iff.mp hzero] at hfault
        exact not_fault_nil cause hfault
      show s.found (Scan.of table back) < s.size
      omega
    · intro other hother
      have hsame := Scan.finding_eq_mistake_iff.mpr hother
      rw [hfinding] at hsame
      injection hsame with hsame
      exact hsame.symm
    · intro text htext
      rw [htext] at hfault
      exact hfault
    · intro size hsize
      rw [hsize] at hfault
      exact hfault

/-- A single ampersand, read from a place inside a source and behind a blank. -/
theorem nextToken?_error_iff_fault_ampersand :
    ((start "é &|" none).advance 2).size ≤ maxOffset
      ∧ ((start "é &|" none).advance 2).remainder? = some [' ', '&', '|']
      ∧ ∃ after, ((start "é &|" none).advance 2).nextToken? table =
        some (.error ⟨.invalidCharacter '&', ⟨3, "shell"⟩⟩, after) := by
  have hsize : ((start "é &|" none).advance 2).size ≤ maxOffset := by decide
  have hplace : ((start "é &|" none).advance 2).remainder? = some [' ', '&', '|'] := by decide
  have hrest : afterBlanks [' ', '&', '|'] = ['&', '|'] := by decide +kernel
  obtain ⟨blank, result, after, hback, hnext, herror, -⟩ := nextToken?_error_iff_fault hsize hplace
  rw [hrest] at hback herror
  have hblank : [' '] = blank := List.append_cancel_right hback
  have hfault : Fault ['&', '|'] (.invalidCharacter '&') := ⟨['|'], rfl, by decide, by decide⟩
  have hresult := (herror ⟨.invalidCharacter '&', ⟨3, "shell"⟩⟩).mpr ⟨hfault, by rw [← hblank]; rfl⟩
  exact ⟨hsize, hplace, after, by rw [hnext, hresult]⟩

end Session

end ScriptFront
