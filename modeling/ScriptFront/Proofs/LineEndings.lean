import Mathlib.Control.Monad.Basic
import Mathlib.Data.List.Forall2
import ScriptFront.Proofs.Reports
import ScriptFront.Proofs.Tiling

/-!
# Line endings

Some systems end a line with a newline, others with a carriage return and a newline. This file
rewrites the one into the other (`Text.crlf`) and says what changes for a reader: offsets do, and
the values of strings that go over the end of a line. All else stays as it is, for people too,
since lines and columns are the same and so is the report of a mistake.

The carriage return gets into three sorts of lexeme. In a run of separators it is one more of them,
at the end of a comment it is skipped with it, and the text that is left behind all blanks is the
same one rewritten (`afterBlanks_crlf`). In a string it is one more character of the body. Neither
it nor the newline is a quote or a backslash, so the string ends at the same quote
(`StringBody.closing?_crlf`). All other lexemes end in front of it: what is cut off in front of a
separator depends neither on which one it is nor on what follows (`Piece.exists_cut_stem`).
-/

namespace ScriptFront

open Rule

/-! ## Texts -/

namespace Text

/-- A text with a carriage return in front of each newline. -/
def crlf (cs : List Char) : List Char := cs.flatMap fun c => if c = '\n' then ['\r', '\n'] else [c]

@[simp] theorem crlf_nil : crlf [] = [] := rfl

@[simp] theorem crlf_newline (cs : List Char) : crlf ('\n' :: cs) = '\r' :: '\n' :: crlf cs := rfl

theorem crlf_cons {c : Char} (h : c ≠ '\n') (cs : List Char) : crlf (c :: cs) = c :: crlf cs := by
  rw [crlf, List.flatMap_cons, if_neg h]
  rfl

@[simp] theorem crlf_append (as bs : List Char) : crlf (as ++ bs) = crlf as ++ crlf bs :=
  List.flatMap_append

/-- A line without its end stays as it is. -/
theorem crlf_of_notMem {cs : List Char} (h : '\n' ∉ cs) : crlf cs = cs := by
  induction cs with
  | nil => rfl
  | cons c cs ih =>
      rw [crlf_cons (fun heq => h (heq ▸ List.mem_cons_self)),
        ih (fun hmem => h (List.mem_cons_of_mem c hmem))]

/-- Nothing gets shorter. -/
theorem width_le_crlf (cs : List Char) : width cs ≤ width (crlf cs) := by
  induction cs with
  | nil => exact Nat.le_refl _
  | cons c cs ih =>
      by_cases hc : c = '\n'
      · subst hc
        rw [crlf_newline, width_cons, width_cons, width_cons]
        omega
      · rw [crlf_cons hc, width_cons, width_cons]
        omega

/-- There are as many lines as before. -/
theorem count_newline_crlf (cs : List Char) : (crlf cs).count '\n' = cs.count '\n' := by
  induction cs with
  | nil => rfl
  | cons c cs ih =>
      by_cases hc : c = '\n'
      · subst hc
        rw [crlf_newline, List.count_cons_of_ne (by decide), List.count_cons_self,
          List.count_cons_self, ih]
      · rw [crlf_cons hc, List.count_cons_of_ne hc, List.count_cons_of_ne hc, ih]

/-- The last line has no end that could be rewritten. -/
theorem lastLine_crlf (cs : List Char) : lastLine (crlf cs) = lastLine cs := by
  induction cs using line_induction with
  | last body hbody => rw [crlf_of_notMem hbody]
  | line body rest _ ih =>
      rw [crlf_append, crlf_newline, List.append_cons, lastLine_append_newline,
        lastLine_append_newline, ih]

/-- The carriage return is the last character of a line. -/
theorem exists_takeWhile_crlf (cs : List Char) :
    ∃ ending, (crlf cs).takeWhile (· != '\n') = cs.takeWhile (· != '\n') ++ ending
      ∧ (ending = [] ∨ ending = ['\r']) := by
  induction cs with
  | nil => exact ⟨[], rfl, Or.inl rfl⟩
  | cons c cs ih =>
      by_cases hc : c = '\n'
      · subst hc
        exact ⟨['\r'], rfl, Or.inr rfl⟩
      · obtain ⟨ending, htake, hending⟩ := ih
        have hne : (c != '\n') = true := bne_iff_ne.mpr hc
        refine ⟨ending, ?_, hending⟩
        rw [crlf_cons hc, List.takeWhile_cons, List.takeWhile_cons, if_pos hne, if_pos hne, htake,
          List.cons_append]

end Text

open Text

/-! ## Blanks -/

/-- A carriage return and a newline are two separators. -/
theorem afterBlanks_return (cs : List Char) :
    afterBlanks ('\r' :: '\n' :: cs) = afterBlanks cs := by
  rw [afterBlanks_separator (by decide), afterBlanks_separator (by decide)]

/-- **The text behind the blanks is the same one, rewritten.** -/
theorem afterBlanks_crlf (cs : List Char) : afterBlanks (crlf cs) = crlf (afterBlanks cs) := by
  induction cs using blanks_induction with
  | nil => rw [crlf_nil, afterBlanks, crlf_nil]
  | separator c cs hsep ih =>
      rw [afterBlanks_separator hsep]
      by_cases hc : c = '\n'
      · rw [hc, crlf_newline, afterBlanks_return, ih]
      · rw [crlf_cons hc, afterBlanks_separator hsep, ih]
  | comment body cs hbody ih =>
      -- the carriage return is the last character of the comment
      have hbody' : '\n' ∉ body ++ ['\r'] := by simp [hbody]
      have hline : crlf ('/' :: '/' :: (body ++ '\n' :: cs)) =
          '/' :: '/' :: ((body ++ ['\r']) ++ '\n' :: crlf cs) := by
        rw [crlf_cons (by decide), crlf_cons (by decide), crlf_append, crlf_of_notMem hbody,
          crlf_newline, List.append_assoc]
        rfl
      rw [hline, afterBlanks_comment hbody', afterBlanks_comment hbody, ih]
  | lastComment body hbody =>
      rw [crlf_cons (by decide), crlf_cons (by decide), crlf_of_notMem hbody,
        afterBlanks_lastComment hbody, crlf_nil]
  | other c cs hsep hcomment =>
      -- a second slash would have been there before
      have hcomment' : ¬ ['/', '/'] <+: c :: crlf cs := by
        rintro ⟨rest, hrest⟩
        injection hrest with hslash hrest
        cases cs with
        | nil => exact absurd hrest (by simp)
        | cons d cs =>
            by_cases hd : d = '\n'
            · rw [hd, crlf_newline] at hrest
              exact absurd (List.cons.inj hrest).1 (by decide)
            · rw [crlf_cons hd] at hrest
              refine hcomment ⟨cs, ?_⟩
              rw [← hslash, ← (List.cons.inj hrest).1]
              rfl
      rw [afterBlanks_other hsep hcomment, crlf_cons (ne_newline_of_isSeparator hsep),
        afterBlanks_other hsep hcomment']

/-- So is the text in front of it. -/
theorem Scan.lead_crlf (cs : List Char) : (of table (crlf cs)).lead = crlf (of table cs).lead := by
  have hcrlf := lead_append_afterBlanks (crlf cs)
  have hsame := congrArg crlf (lead_append_afterBlanks cs)
  rw [crlf_append] at hsame
  rw [afterBlanks_crlf] at hcrlf
  exact List.append_cancel_right (hcrlf.trans hsame.symm)

/-! ## Strings -/

namespace StringBody

/-- **The closing quote is the same.** Neither character of a line ending is a quote or a
backslash, so it does not matter whether the first or the second of them is escaped. -/
theorem closing?_crlf (escaped : Bool) (cs : List Char) :
    closing? escaped (crlf cs) =
      (closing? escaped cs).map fun i => (crlf (cs.take i)).length := by
  induction cs generalizing escaped with
  | nil => rfl
  | cons c cs ih =>
      by_cases hc : c = '\n'
      · have hnewline : ∀ flag more,
            closing? flag ('\n' :: more) = (closing? false more).map (· + 1) := fun _ _ => rfl
        have hreturn : ∀ more,
            closing? escaped ('\r' :: more) = (closing? false more).map (· + 1) := fun _ => rfl
        rw [hc, crlf_newline, hreturn, hnewline, hnewline, ih, Option.map_map, Option.map_map,
          Option.map_map]
        rfl
      · rw [crlf_cons hc, closing?, closing?]
        by_cases hquote : c = '"' ∧ escaped = false
        · rw [if_pos hquote, if_pos hquote]
          rfl
        · rw [if_neg hquote, if_neg hquote, ih, Option.map_map, Option.map_map]
          refine congrArg (Option.map · _) (funext fun i => ?_)
          show (crlf (cs.take i)).length + 1 = (crlf (c :: cs.take i)).length
          rw [crlf_cons hc, List.length_cons]

/-- A string that is not closed is not closed now. -/
theorem read?_crlf_eq_none {cs : List Char} (h : read? cs = none) : read? (crlf cs) = none := by
  have hlength := read?_length cs
  have hlength' := read?_length (crlf cs)
  rw [h] at hlength
  rw [closing?_crlf, Option.map_eq_none_iff.mp hlength.symm] at hlength'
  exact Option.map_eq_none_iff.mp hlength'

/-- **A string that is closed has the same body, rewritten**, and means the same if no line ends
in it. -/
theorem read?_crlf {body rest value : List Char}
    (h : read? (body ++ rest) = some (value, body.length)) :
    ∃ other, read? (crlf body ++ crlf rest) = some (other, (crlf body).length)
      ∧ ('\n' ∉ body → other = value) := by
  have hbody := read?_of_append h
  obtain ⟨inner, back, hinner, hlength, -, -⟩ := read?_eq_some hbody
  have hback : back = [] := by
    rw [hinner, List.length_append, List.length_cons] at hlength
    exact List.length_eq_zero_iff.mp (by omega)
  rw [hback] at hinner
  -- the body is what stands in front of the closing quote, and the quote
  have hclosing := read?_length body
  rw [hbody, hlength] at hclosing
  obtain ⟨i, hi, hsucc⟩ := Option.map_eq_some_iff.mp hclosing.symm
  have hread := read?_length (crlf body)
  rw [closing?_crlf, hi, Nat.succ.inj hsucc, Option.map_some, Option.map_some] at hread
  obtain ⟨⟨other, n⟩, hother, hn⟩ := Option.map_eq_some_iff.mp hread
  have hn' : n = (crlf body).length := by
    rw [hinner, List.take_left] at hn
    rw [hinner, crlf_append, crlf_cons (by decide), crlf_nil, List.length_append]
    exact hn
  rw [hn'] at hother
  refine ⟨other, read?_append hother _, fun hline => ?_⟩
  rw [crlf_of_notMem hline, hbody] at hother
  exact (Prod.mk.inj (Option.some.inj hother)).1.symm

end StringBody

/-! ## Findings -/

/-- What a finding becomes when line endings are rewritten. -/
inductive Finding.Rewritten : Finding → Finding → Prop where
  | eof : Rewritten .eof .eof
  | mistake (cause : Cause) : Rewritten (.mistake cause) (.mistake cause)
  /-- A string in which a line ends may have another value. -/
  | token {kind : Kind} {value other : String} {lexeme rest : List Char} :
      (other = value ∨ kind = .string ∧ '\n' ∈ lexeme) →
      Rewritten (.token kind value lexeme rest) (.token kind other (crlf lexeme) (crlf rest))

/-- The end stays the end. -/
theorem Finding.Rewritten.eq_eof {other : Finding} (h : Rewritten .eof other) : other = .eof := by
  cases h
  rfl

/-- So does a mistake. -/
theorem Finding.Rewritten.eq_mistake {cause : Cause} {other : Finding}
    (h : Rewritten (.mistake cause) other) : other = .mistake cause := by
  cases h
  rfl

/-- A token is of the same kind. -/
theorem Finding.Rewritten.eq_token {kind : Kind} {value : String} {lexeme rest : List Char}
    {found : Finding} (h : Rewritten (.token kind value lexeme rest) found) :
    ∃ other, found = .token kind other (crlf lexeme) (crlf rest)
      ∧ (other = value ∨ kind = .string ∧ '\n' ∈ lexeme) := by
  cases h with
  | token hvalue => exact ⟨_, rfl, hvalue⟩

/-- Nothing in front of more text is nothing new. -/
theorem Finding.before_nil (finding : Finding) : finding.before [] = finding := by
  cases finding with
  | eof => rfl
  | mistake cause => rfl
  | token kind value lexeme rest => exact congrArg (token kind value lexeme) (List.append_nil rest)

namespace Piece

/-- A string is the same one rewritten. -/
theorem cut_string_crlf {cs : List Char} {finding : Finding}
    (h : cut table ('"' :: cs) = found finding) :
    ∃ other, cut table (crlf ('"' :: cs)) = found other ∧ finding.Rewritten other := by
  rw [cut_quote, ofString] at h
  rw [crlf_cons (by decide), cut_quote, ofString]
  cases hread : StringBody.read? cs with
  | none =>
      rw [hread] at h
      injection h with h
      rw [StringBody.read?_crlf_eq_none hread, ← h]
      exact ⟨_, rfl, .mistake _⟩
  | some result =>
      obtain ⟨value, n⟩ := result
      obtain ⟨body, rest, rfl, rfl⟩ : ∃ body rest, cs = body ++ rest ∧ n = body.length :=
        ⟨cs.take n, cs.drop n, (List.take_append_drop n cs).symm,
          (List.length_take_of_le (StringBody.read?_le_length hread)).symm⟩
      obtain ⟨other, hother, hvalue⟩ := StringBody.read?_crlf hread
      rw [hread] at h
      injection h with h
      rw [crlf_append, hother, ← h]
      simp only [List.take_left, List.drop_left]
      have hlexeme : crlf (['"'] ++ body) = ['"'] ++ crlf body := by
        rw [crlf_append, crlf_cons (by decide), crlf_nil]
      refine ⟨_, rfl, ?_⟩
      rw [← hlexeme]
      refine .token ?_
      by_cases hline : '\n' ∈ body
      · exact Or.inr ⟨rfl, List.mem_append_right _ hline⟩
      · exact Or.inl (by rw [hvalue hline])

/-- A piece in front of a separator depends neither on which one it is nor on what follows. -/
theorem cut_append_tail {cs tail : List Char} {finding : Finding} (h : cut table cs = found finding)
    (heof : finding ≠ .eof) (hclosed : finding ≠ .mistake .unterminatedString)
    (htail : ∀ d ∈ tail.head?, isSeparator d = true) :
    cut table (cs ++ tail) = found (finding.before tail) := by
  cases tail with
  | nil => rw [List.append_nil, Finding.before_nil, h]
  | cons d more => exact cut_append h heof hclosed (htail d rfl) more

/-- **Where no string begins, a piece depends on nothing from the next separator on.** -/
theorem exists_cut_stem {c : Char} {stem tail : List Char} {finding : Finding}
    (hsep : isSeparator c = false) (hquote : c ≠ '"')
    (h : cut table (c :: stem ++ tail) = found finding) :
    ∃ first, cut table (c :: stem) = found first
      ∧ ∀ other, (∀ d ∈ other.head?, isSeparator d = true) →
        cut table (c :: stem ++ other) = found (first.before other) := by
  have hcomment : ¬ ['/', '/'] <+: c :: stem := by
    rintro ⟨rest, hrest⟩
    rw [← hrest] at h
    have hskip : cut table (['/', '/'] ++ rest ++ tail) = _ := cut_comment
    rw [hskip] at h
    exact absurd h (by simp)
  obtain ⟨first, hfirst⟩ := Scan.exists_cut_eq_found hsep hcomment
  refine ⟨first, hfirst, fun other hother => cut_append_tail hfirst ?_ ?_ hother⟩
  · intro heof
    rw [heof] at hfirst
    exact absurd (cut_eq_eof_iff.mp hfirst) (by simp)
  · intro hopen
    rw [hopen] at hfirst
    rcases Fault.cases ((mistake_iff hsep).mp hfirst) with ⟨hc, -⟩ | ⟨-, _, hcause⟩ | ⟨-, hcause⟩
    · exact hquote hc
    · exact absurd hcause (by simp)
    · exact absurd hcause (by simp)

/-- Where a separator began, one begins now. -/
theorem isSeparator_head_crlf {tail : List Char} (h : ∀ d ∈ tail.head?, isSeparator d = true) :
    ∀ d ∈ (crlf tail).head?, isSeparator d = true := by
  cases tail with
  | nil => exact h
  | cons d more =>
      by_cases hd : d = '\n'
      · rw [hd, crlf_newline]
        rintro _ ⟨⟩
        rfl
      · rw [crlf_cons hd]
        exact h

/-- A finding on one line is the same in front of what is rewritten. -/
theorem rewritten_before {cs : List Char} {finding : Finding} (h : cut table cs = found finding)
    (hline : '\n' ∉ cs) (tail : List Char) :
    (finding.before tail).Rewritten (finding.before (crlf tail)) := by
  cases finding with
  | eof => exact .eof
  | mistake cause => exact .mistake cause
  | token kind value lexeme rest =>
      rw [← (append_of_cut_token h).1, List.mem_append, not_or] at hline
      have hsame := @Finding.Rewritten.token kind value value lexeme (rest ++ tail) (Or.inl rfl)
      rw [crlf_append, crlf_of_notMem hline.1, crlf_of_notMem hline.2] at hsame
      exact hsame

/-- A text goes up to its first separator, and on from there. -/
theorem exists_stem (cs : List Char) :
    ∃ stem tail, cs = stem ++ tail ∧ (∀ d ∈ stem, isSeparator d = false)
      ∧ ∀ d ∈ tail.head?, isSeparator d = true := by
  refine ⟨cs.takeWhile (!isSeparator ·), cs.dropWhile (!isSeparator ·),
    List.takeWhile_append_dropWhile.symm, ?_, ?_⟩
  · intro d hd
    simpa using forall_mem_takeWhile (!isSeparator ·) cs d hd
  · intro d hd
    have hhead := List.head?_dropWhile_not (!isSeparator ·) cs
    rw [hd] at hhead
    simpa using hhead

/-- **What is found is the same, rewritten.** -/
theorem cut_crlf {c : Char} {cs : List Char} {finding : Finding} (hsep : isSeparator c = false)
    (h : cut table (c :: cs) = found finding) :
    ∃ other, cut table (crlf (c :: cs)) = found other ∧ finding.Rewritten other := by
  by_cases hquote : c = '"'
  · subst hquote
    exact cut_string_crlf h
  · obtain ⟨stem, tail, rfl, hstem, htail⟩ := exists_stem cs
    have hline : '\n' ∉ c :: stem := by
      intro hmem
      rcases List.mem_cons.mp hmem with heq | hmem
      · exact ne_newline_of_isSeparator hsep heq.symm
      · exact absurd (hstem _ hmem) (by decide)
    rw [← List.cons_append] at h ⊢
    obtain ⟨first, hfirst, hany⟩ := exists_cut_stem hsep hquote h
    rw [hany tail htail] at h
    injection h with h
    rw [crlf_append, crlf_of_notMem hline, ← h]
    exact ⟨_, hany _ (isSeparator_head_crlf htail), rewritten_before hfirst hline tail⟩

end Piece

/-- **A scan comes to what is found, rewritten.** -/
theorem Scan.finding_crlf (cs : List Char) :
    (of table cs).finding.Rewritten (of table (crlf cs)).finding := by
  obtain ⟨behind, hreads⟩ := of_reads table (crlf cs)
  have hbehind := hreads.eq_afterBlanks
  rw [afterBlanks_crlf] at hbehind
  by_cases heof : (of table cs).finding = .eof
  · rw [finding_eq_eof_iff.mp heof] at hbehind
    rw [heof, hreads.eof_iff.mpr hbehind]
    exact .eof
  · obtain ⟨c, rest, hrest, hc, hcut⟩ := exists_behind heof
    obtain ⟨other, hother, hrewritten⟩ := Piece.cut_crlf hc hcut
    rw [hrest] at hbehind
    rw [← hbehind, hreads.cut] at hother
    injection hother with hother
    rw [hother]
    exact hrewritten

/-! ## Results -/

namespace Session

variable {s : Session} {text : List Char}

/-- A result of a text, and the one that stands in its place when line endings are rewritten. The
offsets of both are told by what is in front of them in the text. -/
inductive Rewritten (s : Session) (text : List Char) :
    Except Error Token → Except Error Token → Prop where
  | token {front lexeme back : List Char} {kind : Kind} {value other : String} :
      text = front ++ (lexeme ++ back) → (other = value ∨ kind = .string ∧ '\n' ∈ lexeme) →
      Rewritten s text
        (.ok ⟨kind, value, s.span (width front) (width front + width lexeme)⟩)
        (.ok ⟨kind, other,
          s.span (width (crlf front)) (width (crlf front) + width (crlf lexeme))⟩)
  | mistake {front back : List Char} {c : Char} {cause : Cause} :
      text = front ++ c :: back → isSeparator c = false →
      Rewritten s text
        (.error ⟨cause, s.positionAt (width front)⟩)
        (.error ⟨cause, s.positionAt (width (crlf front))⟩)

/-- **Result by result, a text is read as before.** -/
theorem results_crlf (hpos : s.pos = 0) {front cs : List Char} (htext : text = front ++ cs) :
    List.Forall₂ (Rewritten s text)
      ((s.advance (width front)).sweepText table cs).results
      ((s.advance (width (crlf front))).sweepText table (crlf cs)).results := by
  have hfound : ∀ first cs, (s.advance (width first)).found (Scan.of table cs) =
      width (first ++ (Scan.of table cs).lead) := by
    intro first cs
    rw [found, advance, hpos, Nat.zero_add, width_append]
  induction cs using Scan.finding_induction table generalizing front with
  | eof cs hf =>
      have hfinding := Scan.finding_crlf cs
      have hcs := Scan.lead_append_afterBlanks cs
      rw [hf] at hfinding
      rw [Scan.finding_eq_eof_iff.mp hf, List.append_nil] at hcs
      have hlast : text = (front ++ (Scan.of table cs).lead) ++ ([] ++ []) := by
        rw [htext, hcs, List.append_nil, List.append_nil]
      rw [results_of_eof hf, results_of_eof hfinding.eq_eof, hfound, hfound, Scan.lead_crlf,
        ← crlf_append, span_advance, span_advance]
      exact .cons (.token hlast (Or.inl rfl)) .nil
  | mistake cs cause hf =>
      have hfinding := Scan.finding_crlf cs
      have hcs := Scan.lead_append_afterBlanks cs
      have heof : (Scan.of table cs).finding ≠ .eof := by rw [hf]; simp
      obtain ⟨c, rest, hbehind, hc, -⟩ := Scan.exists_behind heof
      rw [hf] at hfinding
      rw [hbehind] at hcs
      have hplace : text = (front ++ (Scan.of table cs).lead) ++ c :: rest := by
        rw [htext, List.append_assoc, hcs]
      rw [results_of_mistake hf, results_of_mistake hfinding.eq_mistake, hfound, hfound,
        Scan.lead_crlf, ← crlf_append, positionAt_advance, positionAt_advance]
      exact .cons (.mistake hplace hc) .nil
  | token cs kind value lexeme rest hf ih =>
      have hfinding := Scan.finding_crlf cs
      rw [hf] at hfinding
      obtain ⟨other, hother, hvalue⟩ := hfinding.eq_token
      have hplace : text = (front ++ (Scan.of table cs).lead) ++ (lexeme ++ rest) := by
        rw [htext, List.append_assoc, Scan.lead_append_token hf]
      have hnext := ih (hplace.trans (List.append_assoc _ _ _).symm)
      rw [results_of_token hf, results_of_token hother, hfound, hfound, Scan.lead_crlf,
        ← crlf_append, span_advance, span_advance]
      refine .cons (.token hplace hvalue) ?_
      simp only [advance_advance, crlf_append, width_append, Nat.add_assoc] at hnext ⊢
      exact hnext

/-- The outcomes of two readings whose results stand in one another's places. -/
theorem mapM_id_rewritten {results others : List (Except Error Token)}
    (h : List.Forall₂ (Rewritten s text) results others) :
    match results.mapM id, others.mapM id with
    | .ok tokens, .ok others =>
        List.Forall₂ (fun a b => Rewritten s text (.ok a) (.ok b)) tokens others
    | .error error, .error other => Rewritten s text (.error error) (.error other)
    | _, _ => False := by
  induction h with
  | nil => exact .nil
  | @cons result other results others hfirst _ ih =>
      rw [List.mapM_cons, List.mapM_cons]
      cases hfirst with
      | mistake htext hc => exact .mistake htext hc
      | token htext hvalue =>
          -- the first tokens are put in front of those that are there, or of none
          cases hall : results.mapM id with
          | error error =>
              cases hall' : others.mapM id with
              | error other => rw [hall, hall'] at ih; exact ih
              | ok tokens => rw [hall, hall'] at ih; exact ih.elim
          | ok tokens =>
              cases hall' : others.mapM id with
              | error other => rw [hall, hall'] at ih; exact ih.elim
              | ok others => rw [hall, hall'] at ih; exact .cons (.token htext hvalue) ih

/-- **The report of a mistake is the same.** -/
theorem Rewritten.report_eq {error other : Error} (hsize : width (crlf text) ≤ maxOffset)
    (h : Rewritten s text (.error error) (.error other)) :
    other.cause = error.cause ∧ other.report (crlf text) = error.report text := by
  cases h with
  | @mistake front back c cause htext hc =>
      refine ⟨rfl, ?_⟩
      have hne := ne_newline_of_isSeparator hc
      have hwidth := width_le_crlf front
      rw [htext, crlf_append, crlf_cons hne] at hsize ⊢
      rw [width_append] at hsize
      rw [positionAt_of_le (by omega), positionAt_of_le (by omega)]
      obtain ⟨hline, hshown, hindent⟩ :=
        @Error.report_of_offset ⟨cause, ⟨width front, s.file⟩⟩ front back c hc rfl
      obtain ⟨hline', hshown', hindent'⟩ :=
        @Error.report_of_offset ⟨cause, ⟨width (crlf front), s.file⟩⟩ (crlf front) (crlf back) c
          hc rfl
      refine Error.report_congr rfl rfl ?_ ?_ ?_
      · rw [hline, hline', count_newline_crlf]
      · -- the carriage return at the end of the line is trimmed
        obtain ⟨ending, htake, hending⟩ := exists_takeWhile_crlf back
        have hwhite : trimEnd ending = [] := by rcases hending with rfl | rfl <;> decide
        rw [hshown, hshown', lastLine_crlf, htake, ← List.cons_append, ← List.append_assoc,
          trimEnd_append_of_eq_nil hwhite]
      · rw [hindent, hindent', lastLine_crlf]

end Session

/-- Two tokens that are read in the same place of two texts, which differ in their line endings. -/
structure SameToken (text other : List Char) (a b : Token) : Prop where
  kind : b.kind = a.kind
  /-- The values are the same, unless the token is a string in which a line ends. -/
  value : b.value = a.value
    ∨ a.kind = .string ∧ ∃ lexeme, a.span.slice? text = some lexeme ∧ '\n' ∈ lexeme
  /-- Both begin in the same column of the same line. -/
  place : ∃ line column here there,
    Location.find? text a.span.start.offset = some ⟨line, here, column⟩
      ∧ Location.find? other b.span.start.offset = some ⟨line, there, column⟩

/-- **A token is the same.** -/
theorem Session.Rewritten.sameToken {s : Session} {text : List Char} {a b : Token}
    (hsize : width (crlf text) ≤ maxOffset) (h : Rewritten s text (.ok a) (.ok b)) :
    SameToken text (crlf text) a b := by
  cases h with
  | @token front lexeme back kind value other htext hvalue =>
      have hfront := width_le_crlf front
      have hlexeme := width_le_crlf lexeme
      rw [htext, crlf_append, crlf_append, width_append, width_append] at hsize
      refine ⟨rfl, ?_, ?_⟩
      · rcases hvalue with hvalue | ⟨hkind, hline⟩
        · exact Or.inl hvalue
        · refine Or.inr ⟨hkind, lexeme, ?_, hline⟩
          rw [Span.slice?, span, positionAt_of_le (by omega), positionAt_of_le (by omega), htext]
          exact slice?_append front lexeme back
      · simp only [span]
        rw [positionAt_of_le (by omega), positionAt_of_le (by omega), htext, crlf_append]
        have hthere := Location.find?_width_append (crlf front) (crlf (lexeme ++ back))
        rw [count_newline_crlf, lastLine_crlf] at hthere
        exact ⟨_, _, _, _, Location.find?_width_append front _, hthere⟩

/-- **Line endings do not matter.** A source is read without a mistake just if it is when a carriage
return is put in front of each newline, and then the tokens are the same, one by one. If there is a
mistake it is the same, with the same report. -/
theorem tokenize_crlf (source : String) (file? : Option String)
    (hsize : width (crlf source.toList) ≤ maxOffset) :
    match tokenize source file?, tokenize (String.ofList (crlf source.toList)) file? with
    | .ok tokens, .ok others =>
        List.Forall₂ (SameToken source.toList (crlf source.toList)) tokens others
    | .error error, .error other =>
        other.cause = error.cause
          ∧ (other.report (crlf source.toList)).render = (error.report source.toList).render
    | _, _ => False := by
  have hwidth := width_le_crlf source.toList
  have hresults : List.Forall₂ (Session.Rewritten (Session.start source file?) source.toList)
      ((Session.start source file?).sweepText table source.toList).results
      ((Session.start (String.ofList (crlf source.toList)) file?).sweepText table
        (crlf source.toList)).results := by
    have hcongr : ((Session.start (String.ofList (crlf source.toList)) file?).sweepText table
        (crlf source.toList)).results =
          ((Session.start source file?).sweepText table (crlf source.toList)).results := by
      refine Session.results_congr ?_ ?_ _ <;> rfl
    rw [hcongr]
    exact @Session.results_crlf (Session.start source file?) source.toList rfl [] _ rfl
  have houtcome := Session.mapM_id_rewritten hresults
  rw [Session.tokenize_eq file? (by omega),
    Session.tokenize_eq file? (by rw [String.toList_ofList]; exact hsize), String.toList_ofList]
  generalize ((Session.start source file?).sweepText table source.toList).results.mapM id =
    outcome at houtcome ⊢
  generalize ((Session.start (String.ofList (crlf source.toList)) file?).sweepText table
    (crlf source.toList)).results.mapM id = outcome' at houtcome ⊢
  cases outcome with
  | error error =>
      cases outcome' with
      | error other =>
          obtain ⟨hcause, hreport⟩ := houtcome.report_eq hsize
          exact ⟨hcause, by rw [hreport]⟩
      | ok others => exact houtcome
  | ok tokens =>
      cases outcome' with
      | error other => exact houtcome
      | ok others => exact houtcome.imp fun a b hab => hab.sameToken hsize

/-- A string in which a line ends behind a backslash, and a mistake on an indented line behind a
comment. -/
theorem tokenize_crlf_string :
    width (crlf "\"\\\n\"".toList) ≤ maxOffset
      ∧ tokenize "\"\\\n\"" none = .ok
        [⟨.string, "\\\n", ⟨⟨0, "shell"⟩, ⟨4, "shell"⟩⟩⟩,
          ⟨.eof, "", ⟨⟨4, "shell"⟩, ⟨4, "shell"⟩⟩⟩]
      ∧ tokenize "\"\\\r\n\"" none = .ok
        [⟨.string, "\\\r\n", ⟨⟨0, "shell"⟩, ⟨5, "shell"⟩⟩⟩,
          ⟨.eof, "", ⟨⟨5, "shell"⟩, ⟨5, "shell"⟩⟩⟩]
      ∧ List.Forall₂ (SameToken "\"\\\n\"".toList "\"\\\r\n\"".toList)
        [⟨.string, "\\\n", ⟨⟨0, "shell"⟩, ⟨4, "shell"⟩⟩⟩,
          ⟨.eof, "", ⟨⟨4, "shell"⟩, ⟨4, "shell"⟩⟩⟩]
        [⟨.string, "\\\r\n", ⟨⟨0, "shell"⟩, ⟨5, "shell"⟩⟩⟩,
          ⟨.eof, "", ⟨⟨5, "shell"⟩, ⟨5, "shell"⟩⟩⟩]
      ∧ width (crlf "//\n @\n".toList) ≤ maxOffset
      ∧ tokenize "//\n @\n" none = .error ⟨.invalidCharacter '@', ⟨4, "shell"⟩⟩
      ∧ tokenize "//\r\n @\r\n" none = .error ⟨.invalidCharacter '@', ⟨5, "shell"⟩⟩
      ∧ (Error.report ⟨.invalidCharacter '@', ⟨5, "shell"⟩⟩ "//\r\n @\r\n".toList).render =
        (Error.report ⟨.invalidCharacter '@', ⟨4, "shell"⟩⟩ "//\n @\n".toList).render := by
  have hsize : width (crlf "\"\\\n\"".toList) ≤ maxOffset := by decide
  have hread : tokenize "\"\\\n\"" none = .ok
      [⟨.string, "\\\n", ⟨⟨0, "shell"⟩, ⟨4, "shell"⟩⟩⟩,
        ⟨.eof, "", ⟨⟨4, "shell"⟩, ⟨4, "shell"⟩⟩⟩] := by decide +kernel
  have hread' : tokenize (String.ofList (crlf "\"\\\n\"".toList)) none = .ok
      [⟨.string, "\\\r\n", ⟨⟨0, "shell"⟩, ⟨5, "shell"⟩⟩⟩,
        ⟨.eof, "", ⟨⟨5, "shell"⟩, ⟨5, "shell"⟩⟩⟩] := by decide +kernel
  have htokens := tokenize_crlf "\"\\\n\"" none hsize
  rw [hread, hread'] at htokens
  have hsize' : width (crlf "//\n @\n".toList) ≤ maxOffset := by decide
  have herror : tokenize "//\n @\n" none = .error ⟨.invalidCharacter '@', ⟨4, "shell"⟩⟩ := by
    decide +kernel
  have herror' : tokenize (String.ofList (crlf "//\n @\n".toList)) none =
      .error ⟨.invalidCharacter '@', ⟨5, "shell"⟩⟩ := by decide +kernel
  have hreport := tokenize_crlf "//\n @\n" none hsize'
  rw [herror, herror'] at hreport
  exact ⟨hsize, hread, hread', htokens, hsize', herror, herror', hreport.2⟩

end ScriptFront
