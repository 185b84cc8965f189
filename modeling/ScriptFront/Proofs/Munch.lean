import ScriptFront.Proofs.Agreement
import ScriptFront.Proofs.Skipped

/-!
# The longest lexeme

Wherever something is cut off a source, it is as much as could be. That is said without the rules
that find it: a lexeme is a text that one of the rules describes (`IsLexeme`), and no longer lexeme
stands where the piece stands (`Span.IsLongestLexeme`).

For one piece this is the comparison of the rules. The rule that applies reaches farthest
(`Rule.reach_le_of_longest`), and no rule reaches less far than a lexeme that it describes
(`Describes.length_le_reach`). Strings are left out, as what their rule describes is the quote alone.
For a run it follows because every token and everything skipped was cut off the source where its
span is, whatever calls were made and wherever the cursor was moved in between.
-/

namespace ScriptFront

open Rule

/-- A text that a rule describes: a word, a number, a run of separators, a comment or a mark. -/
def IsLexeme (cs : List Char) : Prop := ∃ rule, rule ≠ quote ∧ Describes rule cs

/-- The span is that of a lexeme, and no longer one begins where it does. -/
def Span.IsLongestLexeme (span : Span) (file : String) (text : List Char) : Prop :=
  ∃ lexeme rest, span.Marks file text lexeme rest ∧ IsLexeme lexeme
    ∧ ∀ other, IsLexeme other → other <+: lexeme ++ rest → other.length ≤ lexeme.length

namespace Piece

variable {rules : List Rule} {cs lexeme rest : List Char}

/-- Unless it opens a string, a lexeme is taken as the rule found it. -/
theorem eq_of_parts?_ofLexeme {rule : Rule} {first back : List Char} (hquote : rule ≠ quote)
    (h : (ofLexeme rule first back).parts? = some (lexeme, rest)) : lexeme = first := by
  cases rule with
  | quote => exact absurd rfl hquote
  | word =>
      simp only [ofLexeme, ofWord] at h
      split at h
      all_goals
        injection h with h
        exact (Prod.mk.inj h).1.symm
  | number =>
      simp only [ofLexeme, ofNumber] at h
      split at h
      · injection h with h
        exact (Prod.mk.inj h).1.symm
      · exact absurd h (by simp [parts?])
  | _ =>
      injection h with h
      exact (Prod.mk.inj h).1.symm

/-- **The rule that a piece is cut off by reaches over its lexeme.** -/
theorem longest_of_parts?_cut (h : (cut rules cs).parts? = some (lexeme, rest))
    (hstring : ∀ value, cut rules cs ≠ found (.token .string value lexeme rest)) :
    ∃ rule, rule ≠ quote ∧ longest rules cs = some (rule, lexeme.length) := by
  cases cs with
  | nil => exact absurd h (by simp [cut, parts?])
  | cons c cs =>
      rw [cut] at h hstring
      cases hlongest : longest rules (c :: cs) with
      | none =>
          rw [hlongest] at h
          exact absurd h (by simp [parts?])
      | some best =>
          obtain ⟨rule, n⟩ := best
          rw [hlongest] at h hstring
          have hquote : rule ≠ quote := by
            rintro rfl
            -- behind a quote there is a string, or a mistake
            simp only [ofLexeme, ofString] at h hstring
            split at h
            · exact absurd h (by simp [parts?])
            · rename_i value m hread
              simp only [parts?, Option.some.injEq, Prod.mk.injEq] at h
              refine hstring (String.ofList value) ?_
              rw [hread, ← h.1, ← h.2]
          have hlexeme := eq_of_parts?_ofLexeme hquote h
          obtain ⟨-, hreach, -⟩ := longest_mem hlongest
          have hle := reach_le_length rule (c :: cs)
          refine ⟨rule, hquote, ?_⟩
          rw [hlexeme, List.length_take_of_le (by omega)]

/-- **Where a rule other than that for strings applies, its lexeme is the longest.** -/
theorem longest_lexeme_of_longest {rule : Rule} (hquote : rule ≠ quote)
    (h : longest table (lexeme ++ rest) = some (rule, lexeme.length)) :
    IsLexeme lexeme
      ∧ ∀ other, IsLexeme other → other <+: lexeme ++ rest → other.length ≤ lexeme.length := by
  obtain ⟨-, hreach, hpos⟩ := longest_mem h
  constructor
  · have hdescribes := describes_take_reach (by omega : rule.reach (lexeme ++ rest) ≠ 0)
    rw [← hreach, List.take_left] at hdescribes
    exact ⟨rule, hquote, hdescribes⟩
  · rintro other ⟨rule', -, hdescribes⟩ hstarts
    exact Nat.le_trans (hdescribes.length_le_reach hstarts)
      (reach_le_of_longest h rule' (mem_table rule'))

end Piece

namespace Span.Marks

variable {span : Span} {file : String} {text lexeme rest : List Char}

/-- A token that is no string is the longest lexeme. -/
theorem isLongestLexeme_of_token {kind : Kind} {value : String}
    (h : span.Marks file text lexeme rest)
    (hcut : Piece.cut table (lexeme ++ rest) = .found (.token kind value lexeme rest))
    (hkind : kind ≠ .string) : span.IsLongestLexeme file text := by
  obtain ⟨rule, hquote, hlongest⟩ := Piece.longest_of_parts?_cut (by rw [hcut]; rfl)
    (fun value hvalue => by
      rw [hcut] at hvalue
      simp only [Piece.found.injEq, Finding.token.injEq] at hvalue
      exact hkind hvalue.1)
  exact ⟨lexeme, rest, h, Piece.longest_lexeme_of_longest hquote hlongest⟩

/-- So is what is skipped. -/
theorem isLongestLexeme_of_skip (h : span.Marks file text lexeme rest)
    (hcut : Piece.cut table (lexeme ++ rest) = .skip lexeme rest) :
    span.IsLongestLexeme file text := by
  obtain ⟨rule, hquote, hlongest⟩ := Piece.longest_of_parts?_cut (by rw [hcut]; rfl)
    (fun value hvalue => by
      rw [hcut] at hvalue
      exact absurd hvalue (by simp))
  exact ⟨lexeme, rest, h, Piece.longest_lexeme_of_longest hquote hlongest⟩

end Span.Marks

namespace Session

/-- **Maximal munch, over every run.** Whatever calls are made, jumps among them, each token that
is returned has the span of a lexeme, and so has everything that is skipped; and where it begins, no
longer lexeme begins. Only strings and the token for the end are no lexemes in this sense. -/
theorem pieces_are_longest (source : String) (file? : Option String)
    (hsize : Text.width source.toList ≤ maxOffset) (calls : List Call) :
    (∀ token ∈ (start source file?).returnedIn table calls,
        token.kind ≠ .string → token.kind ≠ .eof →
        token.span.IsLongestLexeme (file?.getD unnamed) source.toList)
      ∧ ∀ span ∈ (start source file?).skippedIn table calls,
        span.IsLongestLexeme (file?.getD unnamed) source.toList := by
  have hopen : (start source file?).size ≤ maxOffset := hsize
  constructor
  · intro token htoken hstring heof
    obtain ⟨lexeme, rest, hmarks, hcut⟩ := marks_of_mem_returnedIn hopen htoken heof
    exact hmarks.isLongestLexeme_of_token hcut hstring
  · intro span hspan
    obtain ⟨lexeme, rest, hmarks, hcut⟩ := marks_of_mem_skippedIn hspan
    exact hmarks.isLongestLexeme_of_skip hcut

/-- Of three plus signs and an equals sign, two are taken and then two, and of two points behind a
number none is taken with it. -/
theorem pieces_are_longest_plus :
    Text.width "a+++=1..\n\n//b".toList ≤ maxOffset
      ∧ ((start "a+++=1..\n\n//b" none).returnedIn table [.next, .collect]).map
          (fun token => (token.span.start.offset, token.span.stop.offset)) =
        [(0, 1), (1, 3), (3, 5), (5, 6), (6, 8), (13, 13)]
      ∧ (∀ token ∈ (start "a+++=1..\n\n//b" none).returnedIn table [.next, .collect],
          token.kind ≠ .eof → token.span.IsLongestLexeme "shell" "a+++=1..\n\n//b".toList)
      ∧ (start "a+++=1..\n\n//b" none).skippedIn table [.next, .collect] =
        [⟨⟨8, "shell"⟩, ⟨10, "shell"⟩⟩, ⟨⟨10, "shell"⟩, ⟨13, "shell"⟩⟩]
      ∧ ∀ span ∈ (start "a+++=1..\n\n//b" none).skippedIn table [.next, .collect],
          span.IsLongestLexeme "shell" "a+++=1..\n\n//b".toList := by
  have hsize : Text.width "a+++=1..\n\n//b".toList ≤ maxOffset := by decide
  have hstrings : ∀ token ∈ (start "a+++=1..\n\n//b" none).returnedIn table [.next, .collect],
      token.kind ≠ .string := by decide +kernel
  obtain ⟨htokens, hskips⟩ := pieces_are_longest "a+++=1..\n\n//b" none hsize [.next, .collect]
  exact ⟨hsize, by decide +kernel, fun token hmem => htokens token hmem (hstrings token hmem),
    by decide +kernel, hskips⟩

end Session

end ScriptFront
