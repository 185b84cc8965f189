import Mathlib.Data.List.Basic
import ScriptFront.Proofs.Munch
import ScriptFront.Proofs.Reached

/-!
# What stands beside a number

A point behind a number can be part of the number, a mark of its own, the first half of another
mark, or one point too many. Which of these it is depends on two more characters and on whether the
number has a point already. Still the text behind a number is easy to describe. It begins neither
with a digit nor with a point and a digit (`EndsNumber`), since a number is all of the longest
decimal that the text begins with, and either of these would make a longer one.

In front of a number that was come to piece by piece there is no character of a word
(`Reached.apart_of_digit`). For the piece in front of it would have gone on with the digit if it
were a word, a number or a comment, and all others end with some other character.

From what is behind a number or a word follows which tokens can touch. A number does not touch
another one in front of it or behind it, not even with a point in between, and neither a word nor a
number stands right behind a word.
-/

namespace ScriptFront

open Rule

/-! ## Behind a number -/

/-- The last fractional part can be made longer by a digit. -/
theorem Fractions.digit {n : Nat} {cs : List Char} (h : Fractions n cs) (hne : cs ≠ []) {d : Char}
    (hd : d.isDigit = true) : Fractions n (cs ++ [d]) := by
  induction h with
  | nil => exact absurd rfl hne
  | @cons n digits fs hdigits hall hfs ih =>
      cases hfs with
      | nil =>
          have hmore := List.forall_mem_append.mpr ⟨hall, List.forall_mem_singleton.mpr hd⟩
          have hlonger := Fractions.cons (by simp) hmore .nil
          rw [List.append_nil] at hlonger
          rw [List.append_nil]
          exact hlonger
      | cons hds hallds hgs =>
          rw [List.cons_append, List.append_assoc]
          exact .cons hdigits hall (ih (by simp))

/-- A point and a digit are one more fractional part. -/
theorem Fractions.point {n : Nat} {cs : List Char} (h : Fractions n cs) {d : Char}
    (hd : d.isDigit = true) : Fractions (n + 1) (cs ++ ['.', d]) := by
  induction h with
  | nil =>
      have hone : Fractions 1 ('.' :: ([d] ++ [])) :=
        .cons (by simp) (List.forall_mem_singleton.mpr hd) .nil
      exact hone
  | cons hdigits hall _ ih =>
      rw [List.cons_append, List.append_assoc]
      exact .cons hdigits hall ih

/-- So a decimal goes on with a digit. -/
theorem Decimal.digit {n : Nat} {cs : List Char} (h : Decimal n cs) {d : Char}
    (hd : d.isDigit = true) : Decimal n (cs ++ [d]) := by
  obtain ⟨hne, hall, hfs⟩ := h
  rename_i digits fs
  by_cases hnil : fs = []
  · subst hnil
    have hmore := List.forall_mem_append.mpr ⟨hall, List.forall_mem_singleton.mpr hd⟩
    have hlonger := Decimal.mk (by simp) hmore hfs
    rw [List.append_nil] at hlonger ⊢
    exact hlonger
  · rw [List.append_assoc]
    exact .mk hne hall (hfs.digit hnil hd)

/-- And with a point and a digit. -/
theorem Decimal.point {n : Nat} {cs : List Char} (h : Decimal n cs) {d : Char}
    (hd : d.isDigit = true) : Decimal (n + 1) (cs ++ ['.', d]) := by
  obtain ⟨hne, hall, hfs⟩ := h
  rw [List.append_assoc]
  exact .mk hne hall (hfs.point hd)

/-- A text that begins neither with a digit nor with a point and a digit. -/
structure EndsNumber (rest : List Char) : Prop where
  digit : ∀ d more, rest = d :: more → d.isDigit = false
  point : ∀ d more, rest = '.' :: d :: more → d.isDigit = false

/-- A number is a decimal. -/
theorem Written.decimal {value : String} {lexeme : List Char}
    (h : Written .number value lexeme) : ∃ n, Decimal n lexeme := by
  cases h with
  | spelling htext => exact absurd htext (by simp [Kind.spelling?])
  | number hdecimal _ => exact ⟨_, hdecimal⟩

/-- So it begins with a digit. -/
theorem Written.exists_digit {value : String} {lexeme : List Char}
    (h : Written .number value lexeme) : ∃ d more, lexeme = d :: more ∧ d.isDigit = true := by
  obtain ⟨n, hdecimal⟩ := h.decimal
  exact hdecimal.exists_cons

/-- A kind that is written in one way is written so. -/
theorem Written.of_spelling {kind : Kind} {value text : String} {lexeme : List Char}
    (h : Written kind value lexeme) (htext : kind.spelling? = some text) :
    lexeme = text.toList := by
  cases h with
  | spelling hspelling =>
      rw [hspelling] at htext
      injection htext with htext
      rw [htext]
  | _ => exact absurd htext (by simp [Kind.spelling?])

namespace Piece

/-- **A number that is cut off is not gone on with.** -/
theorem endsNumber_of_cut {value : String} {lexeme rest : List Char}
    (h : cut table (lexeme ++ rest) = found (.token .number value lexeme rest)) :
    EndsNumber rest := by
  obtain ⟨n, hdecimal⟩ := (written_of_cut h).decimal
  obtain ⟨c, tail, hlexeme, hc⟩ := hdecimal.exists_cons
  have hlongest : lexeme = longestDecimal (lexeme ++ rest) := by
    obtain ⟨m, hm⟩ := exists_decimal hc (tail ++ rest)
    have hcut := cut_decimal hc hm
    rw [← List.cons_append, ← hlexeme, h] at hcut
    split at hcut
    · injection hcut with hcut
      injection hcut
    · exact absurd hcut (by simp)
  have hmax : ∀ m more, Decimal m (lexeme ++ more) → more <+: rest → more = [] := by
    intro m more hm hstarts
    have hle := hm.length_le ((List.prefix_append_right_inj lexeme).mpr hstarts)
    rw [← hlongest, List.length_append] at hle
    exact List.length_eq_zero_iff.mp (by omega)
  constructor
  · intro d more hrest
    cases hd : d.isDigit with
    | false => rfl
    | true => exact absurd (hmax n [d] (hdecimal.digit hd) ⟨more, hrest.symm⟩) (by simp)
  · intro d more hrest
    cases hd : d.isDigit with
    | false => rfl
    | true => exact absurd (hmax (n + 1) ['.', d] (hdecimal.point hd) ⟨more, hrest.symm⟩) (by simp)

end Piece

/-! ## Behind a word -/

/-- Whether a kind is that of a word, reserved or not. -/
def Kind.isWord (kind : Kind) : Bool := kind.isKeyword || kind == .identifier

/-- What is written for such a token is a word. -/
theorem Written.word {kind : Kind} {value : String} {lexeme : List Char}
    (h : Written kind value lexeme) (hkind : kind.isWord = true) :
    ∃ c cs, lexeme = c :: cs ∧ isWordStart c = true ∧ ∀ d ∈ cs, isWordPart d = true := by
  cases h with
  | spelling htext =>
      cases kind with
      | keyword word =>
          injection htext with htext
          rw [← htext]
          exact word.exists_letters
      | identifier => exact absurd htext (by simp [Kind.spelling?])
      | _ => exact absurd hkind (by simp [Kind.isWord, Kind.isKeyword])
  | identifier hc hcs _ => exact ⟨_, _, rfl, hc, hcs⟩
  | _ => exact absurd hkind (by decide)

/-- A character that begins a word can go on with one. -/
theorem isWordPart_of_isWordStart {c : Char} (h : isWordStart c = true) : isWordPart c = true := by
  unfold isWordStart at h
  unfold isWordPart Char.isAlphanum
  rcases Bool.or_eq_true_iff.mp h with halpha | hunderscore
  · rw [halpha]
    rfl
  · rw [hunderscore, Bool.or_true]

/-- So can a digit. -/
theorem isWordPart_of_isDigit {c : Char} (h : c.isDigit = true) : isWordPart c = true := by
  unfold isWordPart Char.isAlphanum
  rw [h, Bool.or_true, Bool.true_or]

namespace Piece

variable {lexeme rest : List Char}

/-- **No lexeme is made by going on with a piece**, unless the piece is a string. -/
theorem not_isLexeme_append {more : List Char}
    (h : (cut table (lexeme ++ rest)).parts? = some (lexeme, rest))
    (hstring : ∀ value, cut table (lexeme ++ rest) ≠ found (.token .string value lexeme rest))
    (hne : more ≠ []) (hstarts : more <+: rest) : ¬ IsLexeme (lexeme ++ more) := by
  intro hmore
  obtain ⟨rule, hquote, hlongest⟩ := longest_of_parts?_cut h hstring
  have hle := (longest_lexeme_of_longest hquote hlongest).2 _ hmore
    ((List.prefix_append_right_inj lexeme).mpr hstarts)
  have hpos := List.length_pos_iff.mpr hne
  rw [List.length_append] at hle
  omega

/-- **A word that is cut off is not gone on with.** -/
theorem isWordPart_eq_false_of_cut_word {kind : Kind} {value : String}
    (h : cut table (lexeme ++ rest) = found (.token kind value lexeme rest))
    (hkind : kind.isWord = true) : ∀ d more, rest = d :: more → isWordPart d = false := by
  intro d more hrest
  obtain ⟨c, cs, hlexeme, hc, hcs⟩ := (written_of_cut h).word hkind
  have hnot := @not_isLexeme_append lexeme rest [d] (by rw [h]; rfl)
    (fun value hvalue => by
      rw [h] at hvalue
      injection hvalue with hvalue
      injection hvalue with hstring
      rw [hstring] at hkind
      exact absurd hkind (by decide))
    (by simp) ⟨more, hrest.symm⟩
  cases hd : isWordPart d with
  | false => rfl
  | true =>
      refine absurd ⟨word, by decide, ?_⟩ hnot
      rw [hlexeme]
      exact .word hc (List.forall_mem_append.mpr ⟨hcs, List.forall_mem_singleton.mpr hd⟩)

/-! ## In front of a digit -/

/-- A string ends with a quote. -/
theorem getLast?_of_cut_string {value : String}
    (h : cut table (lexeme ++ rest) = found (.token .string value lexeme rest)) :
    lexeme.getLast? = some '"' := by
  cases written_of_cut h with
  | spelling htext => exact absurd htext (by simp [Kind.spelling?])
  | @string body meaning hread =>
      obtain ⟨inner, back, hbody, hlength, -, -⟩ := StringBody.read?_eq_some hread
      rw [hbody, List.length_append, List.length_cons] at hlength
      have hback : back = [] := List.length_eq_zero_iff.mp (by omega)
      rw [hbody, hback, ← List.cons_append, List.getLast?_concat]

/-- **A piece in front of a digit does not end with a character of a word.** -/
theorem isWordPart_eq_false_of_digit_behind {d : Char} {more : List Char}
    (h : (cut table (lexeme ++ rest)).parts? = some (lexeme, rest)) (hrest : rest = d :: more)
    (hd : d.isDigit = true) : ∀ c ∈ lexeme.getLast?, isWordPart c = false := by
  intro c hlast
  by_cases hstring : ∃ value, cut table (lexeme ++ rest) = found (.token .string value lexeme rest)
  · obtain ⟨value, hcut⟩ := hstring
    rw [getLast?_of_cut_string hcut] at hlast
    injection hlast with hlast
    rw [← hlast]
    decide
  · have hstring' : ∀ value,
        cut table (lexeme ++ rest) ≠ found (.token .string value lexeme rest) :=
      fun value hvalue => hstring ⟨value, hvalue⟩
    have hnot := not_isLexeme_append h hstring' (by simp : [d] ≠ []) ⟨more, hrest.symm⟩
    have hmem := List.mem_of_getLast? hlast
    obtain ⟨rule, hquote, hlongest⟩ := longest_of_parts?_cut h hstring'
    obtain ⟨⟨rule', hquote', hdescribes⟩, -⟩ := longest_lexeme_of_longest hquote hlongest
    -- a word, a number or a comment would go on with the digit
    cases hdescribes with
    | word hc hcs =>
        refine absurd ⟨word, by decide, ?_⟩ hnot
        exact .word hc (List.forall_mem_append.mpr
          ⟨hcs, List.forall_mem_singleton.mpr (isWordPart_of_isDigit hd)⟩)
    | number hdecimal hle =>
        exact absurd ⟨number, by decide, .number (hdecimal.digit hd) hle⟩ hnot
    | separators _ hcs => exact isWordPart_eq_false_of_isSeparator (hcs c hmem)
    | quote => exact absurd rfl hquote'
    | comment hbody =>
        refine absurd ⟨comment, by decide, .comment ?_⟩ hnot
        intro hnewline
        rcases List.mem_append.mp hnewline with hin | hin
        · exact hbody hin
        · rw [← List.mem_singleton.mp hin] at hd
          exact absurd hd (by decide)
    | punct mark =>
        have hall : ∀ m ∈ Punct.all, m.spelling.toList.all (!isWordPart ·) = true := by decide
        have hmark := List.all_eq_true.mp (hall mark (Punct.mem_all mark)) c hmem
        rw [Bool.not_eq_true'] at hmark
        exact hmark

end Piece

/-- **So neither does the text in front of a digit at a place that is reached.** -/
theorem Reached.apart_of_digit {text front : List Char} {d : Char} {more : List Char}
    (h : Reached table text front (d :: more)) (hd : d.isDigit = true) :
    ∀ c ∈ front.getLast?, isWordPart c = false := by
  generalize hback : d :: more = back at h
  cases h with
  | start =>
      intro c hc
      exact absurd hc (by simp)
  | @piece front lexeme _ _ hparts =>
      have hne := (Piece.append_of_parts?_cut hparts).2
      rw [List.getLast?_append_of_ne_nil _ hne]
      exact Piece.isWordPart_eq_false_of_digit_behind hparts hback.symm hd

/-! ## Tokens that touch -/

/-- One token ends where another begins. -/
def Token.Touches (a b : Token) : Prop := a.span.stop = b.span.start

namespace Session

variable {s : Session} {calls : List Call} {a b c : Token}

/-- Where one token ends and another begins, the other is cut off what is behind the one. -/
theorem exists_of_touches (hsize : s.size ≤ maxOffset) (ha : a ∈ s.returnedIn table calls)
    (hb : b ∈ s.returnedIn table calls) (hkind : a.kind ≠ .eof) (hkind' : b.kind ≠ .eof)
    (htouch : a.Touches b) :
    ∃ lexeme other back, Piece.cut table (lexeme ++ (other ++ back)) =
        .found (.token a.kind a.value lexeme (other ++ back))
      ∧ b.span.Marks s.file s.text other back
      ∧ Piece.cut table (other ++ back) = .found (.token b.kind b.value other back) := by
  obtain ⟨lexeme, rest, hmarks, hcut⟩ := marks_of_mem_returnedIn hsize ha hkind
  obtain ⟨other, back, hmarks', hcut'⟩ := marks_of_mem_returnedIn hsize hb hkind'
  have hrest := hmarks.rest_eq hmarks' htouch
  subst hrest
  exact ⟨lexeme, other, back, hcut, hmarks', hcut'⟩

/-- **A number does not touch another number behind it.** -/
theorem not_number_touches_number (hsize : s.size ≤ maxOffset)
    (ha : a ∈ s.returnedIn table calls) (hb : b ∈ s.returnedIn table calls)
    (htouch : a.Touches b) : ¬ (a.kind = .number ∧ b.kind = .number) := by
  rintro ⟨hkind, hkind'⟩
  obtain ⟨lexeme, other, back, hcut, -, hcut'⟩ := exists_of_touches hsize ha hb
    (by rw [hkind]; decide) (by rw [hkind']; decide) htouch
  rw [hkind] at hcut
  rw [hkind'] at hcut'
  obtain ⟨d, more, rfl, hd⟩ := (Piece.written_of_cut hcut').exists_digit
  have hends := (Piece.endsNumber_of_cut hcut).digit d _ rfl
  rw [hd] at hends
  exact Bool.noConfusion hends

/-- **A word touches neither a word behind it nor a number.** -/
theorem not_word_touches (hsize : s.size ≤ maxOffset) (ha : a ∈ s.returnedIn table calls)
    (hb : b ∈ s.returnedIn table calls) (htouch : a.Touches b) :
    ¬ (a.kind.isWord = true ∧ (b.kind.isWord = true ∨ b.kind = .number)) := by
  rintro ⟨hkind, hkind'⟩
  have heof : a.kind ≠ .eof := by
    intro heof
    rw [heof] at hkind
    exact absurd hkind (by decide)
  have heof' : b.kind ≠ .eof := by
    intro heof
    rw [heof] at hkind'
    exact absurd hkind' (by decide)
  obtain ⟨lexeme, other, back, hcut, -, hcut'⟩ := exists_of_touches hsize ha hb heof heof' htouch
  -- either begins with a character that can go on with a word
  obtain ⟨d, more, hother, hd⟩ : ∃ d more, other = d :: more ∧ isWordPart d = true := by
    have hwritten := Piece.written_of_cut hcut'
    rcases hkind' with hword | hnumber
    · obtain ⟨d, more, hother, hd, -⟩ := hwritten.word hword
      exact ⟨d, more, hother, isWordPart_of_isWordStart hd⟩
    · rw [hnumber] at hwritten
      obtain ⟨d, more, hother, hd⟩ := hwritten.exists_digit
      exact ⟨d, more, hother, isWordPart_of_isDigit hd⟩
  subst hother
  have hends := Piece.isWordPart_eq_false_of_cut_word hcut hkind d _ rfl
  rw [hd] at hends
  exact Bool.noConfusion hends

/-- **Two numbers do not touch one point.** -/
theorem not_number_point_number (hsize : s.size ≤ maxOffset) (ha : a ∈ s.returnedIn table calls)
    (hb : b ∈ s.returnedIn table calls) (hc : c ∈ s.returnedIn table calls)
    (htouch : a.Touches b) (htouch' : b.Touches c) :
    ¬ (a.kind = .number ∧ b.kind = .punct .dot ∧ c.kind = .number) := by
  rintro ⟨hkind, hpoint, hkind'⟩
  obtain ⟨lexeme, point, rest, hcut, hmarks, hcut'⟩ := exists_of_touches hsize ha hb
    (by rw [hkind]; decide) (by rw [hpoint]; decide) htouch
  obtain ⟨other, back, hmarks', hcut''⟩ :=
    marks_of_mem_returnedIn hsize hc (by rw [hkind']; decide)
  have hrest := hmarks.rest_eq hmarks' htouch'
  subst hrest
  rw [hkind] at hcut
  rw [hpoint] at hcut'
  rw [hkind'] at hcut''
  have hspelling := (Piece.written_of_cut hcut').of_spelling rfl
  obtain ⟨d, more, rfl, hd⟩ := (Piece.written_of_cut hcut'').exists_digit
  subst hspelling
  have hends := (Piece.endsNumber_of_cut hcut).point d _ rfl
  rw [hd] at hends
  exact Bool.noConfusion hends

/-- **A number ends in front of what could be more of it, and begins behind what could not.** -/
theorem exists_of_number (source : String) (file? : Option String)
    (hsize : Text.width source.toList ≤ maxOffset)
    (ha : a ∈ (start source file?).returnedIn table calls) (hkind : a.kind = .number) :
    ∃ front lexeme rest, source.toList = front ++ (lexeme ++ rest)
      ∧ a.span = ⟨⟨Text.width front, file?.getD unnamed⟩,
          ⟨Text.width front + Text.width lexeme, file?.getD unnamed⟩⟩
      ∧ EndsNumber rest
      ∧ ((∀ call ∈ calls, call.jumps = false) →
          ∀ c ∈ front.getLast?, c.isAlphanum = false ∧ c ≠ '_') := by
  have hopen : (start source file?).size ≤ maxOffset := hsize
  have heof : a.kind ≠ .eof := by rw [hkind]; decide
  by_cases hjumps : ∀ call ∈ calls, call.jumps = false
  · obtain ⟨front, lexeme, rest, hreached, hcut, hspan⟩ :=
      reached_of_mem_returnedIn hopen (arrived_start table source file?) hjumps ha heof
    rw [hkind] at hcut
    refine ⟨front, lexeme, rest, hreached.append_eq, hspan, Piece.endsNumber_of_cut hcut, ?_⟩
    obtain ⟨d, more, rfl, hd⟩ := (Piece.written_of_cut hcut).exists_digit
    intro _ c hc
    obtain ⟨halnum, hunderscore⟩ :=
      Bool.or_eq_false_iff.mp (Reached.apart_of_digit hreached hd c hc)
    exact ⟨halnum, beq_eq_false_iff_ne.mp hunderscore⟩
  · obtain ⟨lexeme, rest, ⟨front, htext, hspan⟩, hcut⟩ := marks_of_mem_returnedIn hopen ha heof
    rw [hkind] at hcut
    exact ⟨front, lexeme, rest, htext, hspan, Piece.endsNumber_of_cut hcut,
      fun hall => absurd hall hjumps⟩

/-- What a source is read as without a mistake is what one call returns. -/
theorem returnedIn_collect {source : String} {file? : Option String} {tokens : List Token}
    (hsize : Text.width source.toList ≤ maxOffset) (h : tokenize source file? = .ok tokens) :
    (start source file?).returnedIn table [.collect] = tokens := by
  have hopen : (start source file?).size ≤ maxOffset := hsize
  have hcollect :=
    @collect?_eq table (start source file?) _ hopen (remainder?_start source file?) rfl
  rw [tokenize_eq file? hsize, ← Sweep.result_eq] at h
  rw [h] at hcollect
  unfold returnedIn run answer
  rw [hcollect]
  exact List.append_nil tokens

/-- **Numbers do not split in two ways.** Behind each number that is returned in a run stands
neither a digit nor a point and a digit, and if the run has no jumps, there is no letter, digit or
underscore in front of it. So two tokens that touch are not both numbers and not both words, nor a
word and then a number, and three are not two numbers with a point in between. The tokens that a
source is read as without a mistake are returned in such a run. -/
theorem numbers_stand_apart (source : String) (file? : Option String)
    (hsize : Text.width source.toList ≤ maxOffset) (calls : List Call) :
    (∀ a ∈ (start source file?).returnedIn table calls, a.kind = .number →
        ∃ front lexeme rest, source.toList = front ++ (lexeme ++ rest)
          ∧ a.span = ⟨⟨Text.width front, file?.getD unnamed⟩,
              ⟨Text.width front + Text.width lexeme, file?.getD unnamed⟩⟩
          ∧ EndsNumber rest
          ∧ ((∀ call ∈ calls, call.jumps = false) →
              ∀ c ∈ front.getLast?, c.isAlphanum = false ∧ c ≠ '_'))
      ∧ (∀ a ∈ (start source file?).returnedIn table calls,
          ∀ b ∈ (start source file?).returnedIn table calls, a.Touches b →
            ¬ (a.kind = .number ∧ b.kind = .number)
              ∧ ¬ (a.kind.isWord = true ∧ b.kind.isWord = true)
              ∧ ¬ (a.kind.isWord = true ∧ b.kind = .number)
              ∧ ∀ c ∈ (start source file?).returnedIn table calls, b.Touches c →
                  ¬ (a.kind = .number ∧ b.kind = .punct .dot ∧ c.kind = .number))
      ∧ ∀ tokens, tokenize source file? = .ok tokens →
          (start source file?).returnedIn table [.collect] = tokens := by
  have hopen : (start source file?).size ≤ maxOffset := hsize
  refine ⟨fun a ha hkind => exists_of_number source file? hsize ha hkind, ?_,
    fun tokens htokens => returnedIn_collect hsize htokens⟩
  intro a ha b hb htouch
  have hword := not_word_touches hopen ha hb htouch
  refine ⟨not_number_touches_number hopen ha hb htouch, ?_, ?_, ?_⟩
  · intro hboth
    exact hword ⟨hboth.1, Or.inl hboth.2⟩
  · intro hboth
    exact hword ⟨hboth.1, Or.inr hboth.2⟩
  · intro c hc htouch'
    exact not_number_point_number hopen ha hb hc htouch htouch'

/-- Two points behind a fraction, and a point behind a number, with a word behind that. -/
theorem numbers_stand_apart_points :
    Text.width "1.5..2 a1 3.b".toList ≤ maxOffset
      ∧ (∀ call ∈ [Call.next, .collect], call.jumps = false)
      ∧ ⟨.number, "3", ⟨⟨10, "shell"⟩, ⟨11, "shell"⟩⟩⟩ ∈
        (start "1.5..2 a1 3.b" none).returnedIn table [.next, .collect]
      ∧ ⟨.punct .dot, "", ⟨⟨11, "shell"⟩, ⟨12, "shell"⟩⟩⟩ ∈
        (start "1.5..2 a1 3.b" none).returnedIn table [.next, .collect]
      ∧ (∃ front lexeme rest, "1.5..2 a1 3.b".toList = front ++ (lexeme ++ rest)
          ∧ (⟨⟨10, "shell"⟩, ⟨11, "shell"⟩⟩ : Span) =
            ⟨⟨Text.width front, "shell"⟩, ⟨Text.width front + Text.width lexeme, "shell"⟩⟩
          ∧ EndsNumber rest ∧ ∀ c ∈ front.getLast?, c.isAlphanum = false ∧ c ≠ '_')
      ∧ ∀ c ∈ (start "1.5..2 a1 3.b" none).returnedIn table [.next, .collect],
          c.span.start = ⟨12, "shell"⟩ → c.kind ≠ .number := by
  have hsize : Text.width "1.5..2 a1 3.b".toList ≤ maxOffset := by decide
  have hjumps : ∀ call ∈ [Call.next, .collect], call.jumps = false := by decide
  have hnumber : ⟨.number, "3", ⟨⟨10, "shell"⟩, ⟨11, "shell"⟩⟩⟩ ∈
      (start "1.5..2 a1 3.b" none).returnedIn table [.next, .collect] := by decide +kernel
  have hpoint : ⟨.punct .dot, "", ⟨⟨11, "shell"⟩, ⟨12, "shell"⟩⟩⟩ ∈
      (start "1.5..2 a1 3.b" none).returnedIn table [.next, .collect] := by decide +kernel
  obtain ⟨hstand, htouch, -⟩ :=
    numbers_stand_apart "1.5..2 a1 3.b" none hsize [.next, .collect]
  obtain ⟨front, lexeme, rest, htext, hspan, hends, hapart⟩ := hstand _ hnumber rfl
  obtain ⟨-, -, -, hthird⟩ := htouch _ hnumber _ hpoint rfl
  refine ⟨hsize, hjumps, hnumber, hpoint,
    ⟨front, lexeme, rest, htext, hspan, hends, hapart hjumps⟩, ?_⟩
  intro c hc hstart hkind
  exact hthird c hc hstart.symm ⟨rfl, rfl, hkind⟩

end Session

end ScriptFront
