import ScriptFront.Proofs.Factors
import ScriptFront.Proofs.Places
import ScriptFront.Proofs.Results

/-!
# Every way to write a string

A string can be written in many ways. Each of its characters may stand for itself, unless it is a
quote or a backslash; it may be written with its escape, if it has one; and if its code has two
digits at most, it may be written by its code (`Spells`). The choice is free for each character,
whatever was chosen for the one before and whatever the next one is (`Encodes`).

All of them mean the same string. What is written for a character is a factor, and not one of those
that look at what follows: a code always has both its digits here. So it fits in front of any text
(`Spells.fits`), and the characters cannot get in each other's way. The closing quote is then found
where it was put, and behind it may stand anything.
-/

namespace ScriptFront

open Rule

namespace StringBody

open Factor

/-- What may be written for a character. -/
inductive Spells : Char → List Char → Prop where
  /-- The character itself. -/
  | plain {c : Char} : c ≠ '"' → c ≠ '\\' → Spells c [c]
  /-- Its escape. -/
  | named {c letter : Char} : (letter, c) ∈ escapes → Spells c ['\\', letter]
  /-- The two digits of its code, each in either case. A code of 256 or more has no such digits. -/
  | code {c d e : Char} : IsDigitOf (c.toNat / 16) d → IsDigitOf (c.toNat % 16) e →
      Spells c ['\\', 'x', d, e]

/-- What may be written for a string: something for each of its characters, one after the other. -/
inductive Encodes : List Char → List Char → Prop where
  | nil : Encodes [] []
  | cons {c : Char} {value text more : List Char} :
      Spells c text → Encodes value more → Encodes (c :: value) (text ++ more)

/-- **What is written for a character is a factor in front of any text.** -/
theorem Spells.fits {c : Char} {text : List Char} (h : Spells c text) (rest : List Char) :
    Fits ⟨text, [c]⟩ rest := by
  cases h with
  | plain hquote hslash => exact .plain hquote hslash
  | named hmem => exact .named hmem
  | @code d e hd he =>
      have hfits : Fits ⟨['\\', 'x', d, e], _⟩ rest := .twoDigits hd he
      rwa [Nat.div_add_mod, Char.ofNat_toNat] at hfits

/-- So a character is read off a text in whatever way it is written, and the text is read as it is
without it. -/
theorem Spells.decode?_append {c : Char} {text : List Char} (h : Spells c text) (body : List Char) :
    StringBody.decode? (text ++ body) =
      (StringBody.decode? body).map fun (value, n) => (c :: value, Text.width text + n) :=
  decode?_of_fits (h.fits body)

/-- **What is written for a string is read as that string**, whatever stands behind the quote. -/
theorem Encodes.read? {value text : List Char} (h : Encodes value text) (rest : List Char) :
    StringBody.read? (text ++ '"' :: rest) = some (value, text.length + 1) := by
  induction h with
  | nil => rw [List.nil_append, StringBody.read?, if_pos rfl]; rfl
  | @cons c value text more hspells _ ih =>
      have hfront := read?_of_fits (hspells.fits (more ++ '"' :: rest))
      rw [List.append_assoc, hfront, ih, Option.map_some, List.length_append, Nat.add_assoc]
      rfl

/-- The same in bytes. -/
theorem Encodes.decode? {value text : List Char} (h : Encodes value text) (rest : List Char) :
    StringBody.decode? (text ++ '"' :: rest) = some (value, Text.width text + 1) :=
  decode?_of_read?_quote (h.read? rest)

/-- There is something to write for every character. -/
theorem exists_spells (c : Char) : ∃ text, Spells c text := by
  by_cases hquote : c = '"'
  · subst hquote
    have hmem : ('"', '"') ∈ escapes := by decide
    exact ⟨_, .named hmem⟩
  · by_cases hslash : c = '\\'
    · subst hslash
      have hmem : ('\\', '\\') ∈ escapes := by decide
      exact ⟨_, .named hmem⟩
    · exact ⟨_, .plain hquote hslash⟩

/-- So there is for every string. -/
theorem exists_encodes (value : List Char) : ∃ text, Encodes value text := by
  induction value with
  | nil => exact ⟨[], .nil⟩
  | cons c value ih =>
      obtain ⟨text, hspells⟩ := exists_spells c
      obtain ⟨more, hencodes⟩ := ih
      exact ⟨text ++ more, .cons hspells hencodes⟩

end StringBody

/-! ## Literals -/

/-- A source that is one token and nothing else. -/
theorem tokenize_of_cut {source value : String} {kind : Kind} (file? : Option String)
    (hsize : Text.width source.toList ≤ maxOffset)
    (hcut : Piece.cut table source.toList = .found (.token kind value source.toList [])) :
    tokenize source file? = .ok
      [⟨kind, value,
          ⟨⟨0, file?.getD Session.unnamed⟩,
            ⟨Text.width source.toList, file?.getD Session.unnamed⟩⟩⟩,
        ⟨.eof, "",
          ⟨⟨Text.width source.toList, file?.getD Session.unnamed⟩,
            ⟨Text.width source.toList, file?.getD Session.unnamed⟩⟩⟩] := by
  have hscan := Scan.of_eq_of_found hcut
  have hend : Scan.of table [] = ⟨[], .eof⟩ :=
    Scan.of_eq_of_found (Piece.cut_eq_eof_iff.mpr rfl)
  have hfirst : (Scan.of table source.toList).finding = .token kind value source.toList [] := by
    rw [hscan]
  have hlast : (Scan.of table []).finding = .eof := by
    rw [hend]
  have hresults := Session.results_of_token (s := Session.start source file?) hfirst
  have hpos : (Session.start source file?).pos = 0 := rfl
  rw [Session.results_of_eof hlast, Session.found_advance, Session.span_advance, hscan, hend]
    at hresults
  simp only [Session.found, Scan.lead_nil, Text.width_nil, hpos, Nat.zero_add] at hresults
  rw [Session.span_of_le (Nat.zero_le _) hsize, Session.span_of_le (Nat.le_refl _) hsize]
    at hresults
  rw [Session.tokenize_eq file? hsize, hresults]
  rfl

/-- A literal is a source that is one token, and the token has the string as its value. -/
theorem tokenize_literal {value text : List Char} (file? : Option String)
    (h : StringBody.Encodes value text) (hsize : Text.width text + 2 ≤ maxOffset) :
    tokenize (String.ofList ('"' :: (text ++ ['"']))) file? = .ok
      [⟨.string, String.ofList value,
          ⟨⟨0, file?.getD Session.unnamed⟩,
            ⟨Text.width text + 2, file?.getD Session.unnamed⟩⟩⟩,
        ⟨.eof, "",
          ⟨⟨Text.width text + 2, file?.getD Session.unnamed⟩,
            ⟨Text.width text + 2, file?.getD Session.unnamed⟩⟩⟩] := by
  have hread := h.read? []
  have hlength : (text ++ ['"']).length = text.length + 1 := List.length_append
  have hcut : Piece.cut table ('"' :: (text ++ ['"'])) =
      .found (.token .string (String.ofList value) ('"' :: (text ++ ['"'])) []) := by
    rw [Piece.cut_quote, Piece.ofString, hread]
    dsimp only
    rw [← hlength, List.take_length, List.drop_length]
    rfl
  have hwidth : Text.width ('"' :: (text ++ ['"'])) = Text.width text + 2 := by
    have hend : Text.width ['"'] = 1 := rfl
    rw [Text.width_quote, Text.width_append, hend]
    omega
  have htokens := @tokenize_of_cut (String.ofList ('"' :: (text ++ ['"']))) (String.ofList value)
    .string file?
  rw [String.toList_ofList, hwidth] at htokens
  exact htokens hsize hcut

namespace StringBody

/-- **Decoding undoes every encoding.** However a string is written, it is decoded, up to the
closing quote and with all its bytes counted, and nothing behind the quote makes a difference.
There is a way to write every string, and as a literal it is one token with that string as its
value. And what is written for one character takes nothing of what follows it and changes nothing
there, whatever that is. -/
theorem decode?_undoes_encoding (value : List Char) :
    (∀ text, Encodes value text → ∀ rest,
        decode? (text ++ '"' :: rest) = some (value, Text.width text + 1))
      ∧ (∃ text, Encodes value text)
      ∧ (∀ text, Encodes value text → Text.width text + 2 ≤ maxOffset → ∀ file? : Option String,
        tokenize (String.ofList ('"' :: (text ++ ['"']))) file? = .ok
          [⟨.string, String.ofList value,
              ⟨⟨0, file?.getD Session.unnamed⟩,
                ⟨Text.width text + 2, file?.getD Session.unnamed⟩⟩⟩,
            ⟨.eof, "",
              ⟨⟨Text.width text + 2, file?.getD Session.unnamed⟩,
                ⟨Text.width text + 2, file?.getD Session.unnamed⟩⟩⟩])
      ∧ ∀ c text, Spells c text → ∀ body,
        decode? (text ++ body) =
          (decode? body).map fun (meaning, n) => (c :: meaning, Text.width text + n) := by
  refine ⟨?_, exists_encodes value, ?_, ?_⟩
  · intro text h rest
    exact h.decode? rest
  · intro text h hsize file?
    exact tokenize_literal file? h hsize
  · intro c text h body
    exact h.decode?_append body

/-- A code in front of what could be one more of its digits, a NUL in front of a digit, and an
escaped quote, a character of two bytes and its code. -/
theorem decode?_undoes_encoding_mixed :
    Encodes "Jf\x001\"éé".toList "\\x4Af\\01\\\"é\\xE9".toList
      ∧ decode? "\\x4Af\\01\\\"é\\xE9\"9".toList = some ("Jf\x001\"éé".toList, 17)
      ∧ Text.width "\\x4Af\\01\\\"é\\xE9".toList + 2 ≤ maxOffset
      ∧ tokenize "\"\\x4Af\\01\\\"é\\xE9\"" none = .ok
        [⟨.string, "Jf\x001\"éé", ⟨⟨0, "shell"⟩, ⟨18, "shell"⟩⟩⟩,
          ⟨.eof, "", ⟨⟨18, "shell"⟩, ⟨18, "shell"⟩⟩⟩]
      ∧ Spells 'é' ['\\', 'x', 'E', '9']
      ∧ decode? (['\\', 'x', 'E', '9'] ++ ['e', '"']) = some (['é', 'e'], 6) := by
  have hJ : Spells 'J' ['\\', 'x', '4', 'A'] :=
    .code ⟨by decide, Or.inl rfl⟩ ⟨by decide, Or.inr rfl⟩
  have hé : Spells 'é' ['\\', 'x', 'E', '9'] :=
    .code ⟨by decide, Or.inr rfl⟩ ⟨by decide, Or.inl rfl⟩
  have hnul : ('0', '\x00') ∈ escapes := by decide
  have hquote : ('"', '"') ∈ escapes := by decide
  have hencodes : Encodes "Jf\x001\"éé".toList "\\x4Af\\01\\\"é\\xE9".toList :=
    .cons hJ (.cons (.plain (by decide) (by decide)) (.cons (.named hnul)
      (.cons (.plain (by decide) (by decide)) (.cons (.named hquote)
        (.cons (.plain (by decide) (by decide)) (.cons hé .nil))))))
  have hsize : Text.width "\\x4Af\\01\\\"é\\xE9".toList + 2 ≤ maxOffset := by decide
  obtain ⟨hdecode, -, htokens, hspells⟩ := decode?_undoes_encoding "Jf\x001\"éé".toList
  refine ⟨hencodes, hdecode _ hencodes ['9'], hsize, htokens _ hencodes hsize none, hé, ?_⟩
  have he : decode? ['e', '"'] = some (['e'], 2) :=
    Encodes.decode? (.cons (.plain (by decide) (by decide)) .nil) []
  rw [hspells 'é' _ hé, he]
  rfl

end StringBody

end ScriptFront
