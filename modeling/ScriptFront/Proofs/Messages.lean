import ScriptFront.Error.Basic
import ScriptFront.Proofs.Factors

/-!
# A message has one meaning

A message is a line of text, and most of what stands in it can be any text: a piece of the source,
between quotes, and the name of a file, without any. Each of them may hold what looks like the rest
of a message. There is still only one way to read it (`Error.message_inj`).

The front is read from the front. Whatever stands there shows its own end (`Delimited`): a
character that is escaped does, so a text between two marks does (`Text.delimited_quote`), so the
cause does. The back is read from the back. The offset is digits, so the last colon of a message is
the one in front of it, and the name of the file is what is left between the two.
-/

namespace ScriptFront

/-- What is written shows where it ends: two texts that begin with it are the same only if the same
has been written, and then the same follows. -/
def Delimited {α : Type} (write : α → List Char) : Prop :=
  ∀ ⦃a b : α⦄ ⦃rest rest' : List Char⦄,
    write a ++ rest = write b ++ rest' → a = b ∧ rest = rest'

namespace Text

/-! ## Marks -/

/-- A mark that neither front holds ends both of them. -/
theorem eq_of_append_cons {mark : Char} {front front' rest rest' : List Char}
    (hfront : mark ∉ front) (hfront' : mark ∉ front')
    (h : front ++ mark :: rest = front' ++ mark :: rest') : front = front' ∧ rest = rest' := by
  rcases List.append_eq_append_iff.mp h with ⟨more, rfl, hmore⟩ | ⟨more, rfl, hmore⟩
  · cases more with
    | nil => exact ⟨(List.append_nil _).symm, (List.cons.inj hmore).2⟩
    | cons c more =>
        obtain ⟨rfl, -⟩ := List.cons.inj hmore
        exact absurd (List.mem_append_right _ List.mem_cons_self) hfront'
  · cases more with
    | nil => exact ⟨List.append_nil _, (List.cons.inj hmore).2.symm⟩
    | cons c more =>
        obtain ⟨rfl, -⟩ := List.cons.inj hmore
        exact absurd (List.mem_append_right _ List.mem_cons_self) hfront

/-- A mark that neither back holds begins both of them. -/
theorem eq_of_append_cons_back {mark : Char} {front front' rest rest' : List Char}
    (hrest : mark ∉ rest) (hrest' : mark ∉ rest')
    (h : front ++ mark :: rest = front' ++ mark :: rest') : front = front' ∧ rest = rest' := by
  have hreverse := congrArg List.reverse h
  simp only [List.reverse_append, List.reverse_cons, List.append_assoc, List.singleton_append]
    at hreverse
  obtain ⟨hback, hfront⟩ :=
    eq_of_append_cons (by simpa using hrest) (by simpa using hrest') hreverse
  exact ⟨List.reverse_inj.mp hfront, List.reverse_inj.mp hback⟩

/-! ## Digits -/

/-- A number has one digit and no more, or the digits of what is left of it in front of its last. -/
theorem toDigits_induction {base : Nat} {P : Nat → List Char → Prop} (hbase : 1 < base)
    (one : ∀ n < base, P n [n.digitChar])
    (more : ∀ n digits, P (n / base) digits → P n (digits ++ [(n % base).digitChar])) (n : Nat) :
    P n (Nat.toDigits base n) := by
  induction n using Nat.strongRecOn with
  | ind n ih =>
      by_cases hlt : n < base
      · rw [Nat.toDigits_of_lt_base hlt]
        exact one n hlt
      · have hle : base ≤ n := Nat.le_of_not_lt hlt
        have hpos : 0 < n := Nat.lt_of_lt_of_le (Nat.lt_trans Nat.zero_lt_one hbase) hle
        rw [Nat.toDigits_of_base_le hbase hle]
        exact more n _ (ih _ (Nat.div_lt_self hpos hbase))

section

variable {base : Nat} (hbase : 1 < base) (hle : base ≤ 16)

include hbase hle

/-- The digits of a number are read as that number. -/
theorem foldl_toDigits (n : Nat) :
    (Nat.toDigits base n).foldl (fun value c => base * value + hexValue c) 0 = n := by
  refine toDigits_induction hbase
    (P := fun n digits => digits.foldl (fun value c => base * value + hexValue c) 0 = n) ?_ ?_ n
  · intro n hlt
    have hdigit : IsDigitOf n n.digitChar := ⟨Nat.lt_of_lt_of_le hlt hle, Or.inl rfl⟩
    rw [List.foldl_cons, List.foldl_nil, hdigit.read.2, Nat.mul_zero, Nat.zero_add]
  · intro n digits hdigits
    have hlt : n % base < base := Nat.mod_lt _ (Nat.lt_trans Nat.zero_lt_one hbase)
    have hdigit : IsDigitOf (n % base) (n % base).digitChar :=
      ⟨Nat.lt_of_lt_of_le hlt hle, Or.inl rfl⟩
    rw [List.foldl_append, hdigits, List.foldl_cons, List.foldl_nil, hdigit.read.2,
      Nat.div_add_mod]

/-- Nothing else is among the digits. -/
theorem isHexDigit_of_mem_toDigits {n : Nat} {c : Char} (h : c ∈ Nat.toDigits base n) :
    isHexDigit c = true := by
  refine toDigits_induction hbase
    (P := fun _ digits => ∀ d ∈ digits, isHexDigit d = true) ?_ ?_ n c h
  · intro n hlt d hd
    obtain rfl := List.mem_singleton.mp hd
    exact isHexDigit_iff.mpr ⟨n, Nat.lt_of_lt_of_le hlt hle, Or.inl rfl⟩
  · intro n digits hdigits d hd
    rcases List.mem_append.mp hd with hd | hd
    · exact hdigits d hd
    · obtain rfl := List.mem_singleton.mp hd
      have hlt : n % base < base := Nat.mod_lt _ (Nat.lt_trans Nat.zero_lt_one hbase)
      exact isHexDigit_iff.mpr ⟨n % base, Nat.lt_of_lt_of_le hlt hle, Or.inl rfl⟩

end

/-! ## Escapes -/

/-- The first character of a text with escapes, and what stands behind it. -/
def unescape? : List Char → Option (Char × List Char)
  | [] => none
  | c :: cs =>
      if c ≠ '\\' then some (c, cs)
      else
        match cs with
        | [] => none
        | letter :: rest =>
            if letter = 'u' then
              some (charOfHex ((rest.drop 1).takeWhile (· ≠ '\x7d')),
                ((rest.drop 1).dropWhile (· ≠ '\x7d')).drop 1)
            else
              some ((namedEscape? letter).getD letter, rest)

theorem unescape?_of_ne {c : Char} (h : c ≠ '\\') (rest : List Char) :
    unescape? (c :: rest) = some (c, rest) := if_pos h

theorem unescape?_letter {letter : Char} (h : letter ≠ 'u') (rest : List Char) :
    unescape? ('\\' :: letter :: rest) = some ((namedEscape? letter).getD letter, rest) := if_neg h

/-- An escape by code is read up to its closing brace. -/
theorem unescape?_codeEscape (c : Char) (rest : List Char) :
    unescape? (codeEscape c ++ rest) = some (c, rest) := by
  have hdigits : ∀ d ∈ Nat.toDigits 16 c.toNat, decide (d ≠ '\x7d') = true := by
    intro d hd
    refine decide_eq_true ?_
    rintro rfl
    exact absurd (isHexDigit_of_mem_toDigits (by decide) (by decide) hd) (by decide)
  have hcode : charOfHex (Nat.toDigits 16 c.toNat) = c := by
    unfold charOfHex
    rw [foldl_toDigits (by decide) (by decide), Char.ofNat_toNat]
  have htext : codeEscape c ++ rest =
      '\\' :: 'u' :: '\x7b' :: (Nat.toDigits 16 c.toNat ++ '\x7d' :: rest) := by
    simp [codeEscape]
  have hread : unescape? (codeEscape c ++ rest) =
      some (charOfHex ((Nat.toDigits 16 c.toNat ++ '\x7d' :: rest).takeWhile (· ≠ '\x7d')),
        ((Nat.toDigits 16 c.toNat ++ '\x7d' :: rest).dropWhile (· ≠ '\x7d')).drop 1) := by
    rw [htext]
    rfl
  rw [hread, List.takeWhile_append_of_pos hdigits, List.dropWhile_append_of_pos hdigits,
    List.takeWhile_cons_of_neg (by decide), List.dropWhile_cons_of_neg (by decide),
    List.append_nil, hcode]
  rfl

/-- A control character has a letter that means it and begins no code. -/
theorem namedEscape?_of_controlLetter? {c letter : Char} (h : controlLetter? c = some letter) :
    letter ≠ 'u' ∧ namedEscape? letter = some c := by
  have key : ∀ {d e : Char}, c = d → some e = some letter → e ≠ 'u' ∧ namedEscape? e = some d →
      letter ≠ 'u' ∧ namedEscape? letter = some c := by
    rintro d e rfl hletter hread
    obtain rfl := Option.some.inj hletter
    exact hread
  unfold controlLetter? at h
  split at h
  · exact key ‹_› h ⟨by decide, rfl⟩
  · split at h
    · exact key ‹_› h ⟨by decide, rfl⟩
    · split at h
      · exact key ‹_› h ⟨by decide, rfl⟩
      · split at h
        · exact key ‹_› h ⟨by decide, rfl⟩
        · exact absurd h (by simp)

variable {mark : Char}

/-- **Each character is read back**, in whatever way it has been written. -/
theorem unescape?_escape (hmark : mark = '"' ∨ mark = '\'') (c : Char) (rest : List Char) :
    unescape? (escape mark c ++ rest) = some (c, rest) := by
  unfold escape
  split
  · rename_i hc
    have hself : c ≠ 'u' ∧ (namedEscape? c).getD c = c := by
      rcases hc with rfl | rfl
      · rcases hmark with rfl | rfl
        · exact ⟨by decide, rfl⟩
        · exact ⟨by decide, rfl⟩
      · exact ⟨by decide, rfl⟩
    rw [List.cons_append, List.singleton_append, unescape?_letter hself.1, hself.2]
  · rename_i hc
    split
    · rename_i letter hletter
      obtain ⟨hne, hmeaning⟩ := namedEscape?_of_controlLetter? hletter
      rw [List.cons_append, List.singleton_append, unescape?_letter hne, hmeaning]
      rfl
    · split
      · exact unescape?_codeEscape c rest
      · exact unescape?_of_ne (fun h => hc (Or.inr h)) rest

/-- So a character that is escaped shows where it ends. -/
theorem delimited_escape (hmark : mark = '"' ∨ mark = '\'') : Delimited (escape mark) := by
  intro c d rest rest' h
  have hread := unescape?_escape hmark c rest
  rw [h, unescape?_escape hmark d rest'] at hread
  obtain ⟨rfl, rfl⟩ := Prod.mk.inj (Option.some.inj hread)
  exact ⟨rfl, rfl⟩

/-- What is escaped does not begin with the mark. -/
theorem escape_eq_cons (hmark : mark ≠ '\\') (c : Char) :
    ∃ d more, escape mark c = d :: more ∧ d ≠ mark := by
  unfold escape
  split
  · exact ⟨_, _, rfl, hmark.symm⟩
  · rename_i hc
    split
    · exact ⟨_, _, rfl, hmark.symm⟩
    · split
      · exact ⟨_, _, rfl, hmark.symm⟩
      · exact ⟨_, _, rfl, fun h => hc (Or.inl h)⟩

/-- Where one text is at its closing mark, no other goes on. -/
theorem quote_end_ne (hmark : mark ≠ '\\') {c : Char} {rest rest' more : List Char} :
    mark :: rest ≠ escape mark c ++ more ++ mark :: rest' := by
  obtain ⟨d, more', hescape, hne⟩ := escape_eq_cons hmark c
  intro h
  rw [hescape] at h
  exact hne (List.cons.inj h).1.symm

/-- **A text between two marks shows where it ends**, whatever it holds. -/
theorem delimited_quote (hmark : mark = '"' ∨ mark = '\'') : Delimited (quote mark) := by
  have hslash : mark ≠ '\\' := by
    rcases hmark with rfl | rfl
    · decide
    · decide
  intro cs ds rest rest' h
  simp only [quote, List.cons_append, List.append_assoc, List.nil_append, List.cons.injEq,
    true_and] at h
  induction cs generalizing ds with
  | nil =>
      cases ds with
      | nil => exact ⟨rfl, (List.cons.inj h).2⟩
      | cons d ds => exact absurd h (quote_end_ne hslash)
  | cons c cs ih =>
      cases ds with
      | nil => exact absurd h.symm (quote_end_ne hslash)
      | cons d ds =>
          rw [List.flatMap_cons, List.flatMap_cons, List.append_assoc, List.append_assoc] at h
          obtain ⟨rfl, hmore⟩ := delimited_escape hmark h
          obtain ⟨rfl, rfl⟩ := ih hmore
          exact ⟨rfl, rfl⟩

end Text

/-! ## Messages -/

/-- What a message about a cause begins with. -/
def Cause.initial : Cause → Char
  | unterminatedString => 'u'
  | malformedNumber _ => 'm'
  | invalidCharacter _ => 'i'
  | unreadableNumber _ => 'e'
  | sourceTooLarge _ => 's'

/-- A text goes on as its front begins. -/
theorem Text.head?_append {words text : String} {c : Char} (h : words.toList.head? = some c) :
    (words ++ text).toList.head? = some c := by
  rw [String.toList_append, List.head?_append, h]
  rfl

theorem Cause.head?_message (cause : Cause) : cause.message.toList.head? = some cause.initial := by
  cases cause with
  | unterminatedString => rfl
  | malformedNumber literal => exact Text.head?_append rfl
  | invalidCharacter character => exact Text.head?_append rfl
  | unreadableNumber text => exact Text.head?_append rfl
  | sourceTooLarge size => exact Text.head?_append (Text.head?_append rfl)

/-- No digit of a number is another character. -/
theorem notMem_repr {c : Char} (hc : c.isDigit = false) (n : Nat) : c ∉ n.repr.toList := by
  intro hmem
  rw [Nat.toList_repr] at hmem
  rw [Nat.isDigit_of_mem_toDigits (by decide) (by decide) hmem] at hc
  exact Bool.noConfusion hc

/-- A number is read back from its digits. -/
theorem eq_of_toList_repr {m n : Nat} (h : m.repr.toList = n.repr.toList) : m = n := by
  rw [Nat.toList_repr, Nat.toList_repr] at h
  rw [← @Nat.ofDigitChars_ten_toDigits m, h, Nat.ofDigitChars_ten_toDigits]

/-- What is quoted behind the same words is the same. -/
theorem Text.eq_of_quoted {mark : Char} (hmark : mark = '"' ∨ mark = '\'') {words : String}
    {cs ds rest rest' : List Char}
    (h : (words ++ String.ofList (quote mark cs)).toList ++ rest =
      (words ++ String.ofList (quote mark ds)).toList ++ rest') : cs = ds ∧ rest = rest' := by
  rw [String.toList_append, String.toList_append, String.toList_ofList, String.toList_ofList,
    List.append_assoc, List.append_assoc] at h
  exact delimited_quote hmark (List.append_cancel_left h)

/-- **A cause shows where it ends.** -/
theorem Cause.delimited_message : Delimited fun cause : Cause => cause.message.toList := by
  intro c d rest rest' h
  dsimp only at h
  have hinitial : c.initial = d.initial := by
    have hhead := congrArg List.head? h
    rw [List.head?_append, List.head?_append, c.head?_message, d.head?_message] at hhead
    exact Option.some.inj hhead
  cases c with
  | unterminatedString =>
      cases d with
      | unterminatedString => exact ⟨rfl, List.append_cancel_left h⟩
      | _ => exact absurd hinitial (by simp [initial])
  | malformedNumber literal =>
      cases d with
      | malformedNumber literal' =>
          obtain ⟨hsame, hrest⟩ := Text.eq_of_quoted (Or.inl rfl) h
          exact ⟨congrArg _ (String.toList_inj.mp hsame), hrest⟩
      | _ => exact absurd hinitial (by simp [initial])
  | invalidCharacter character =>
      cases d with
      | invalidCharacter character' =>
          obtain ⟨hsame, hrest⟩ := Text.eq_of_quoted (Or.inr rfl) h
          exact ⟨congrArg _ (List.cons.inj hsame).1, hrest⟩
      | _ => exact absurd hinitial (by simp [initial])
  | unreadableNumber text =>
      cases d with
      | unreadableNumber text' =>
          obtain ⟨hsame, hrest⟩ := Text.eq_of_quoted (Or.inl rfl) h
          exact ⟨congrArg _ (String.toList_inj.mp hsame), hrest⟩
      | _ => exact absurd hinitial (by simp [initial])
  | sourceTooLarge size =>
      cases d with
      | sourceTooLarge size' =>
          have htext : ∀ n rest, (sourceTooLarge n).message.toList ++ rest =
              "source of ".toList ++
                (n.repr.toList ++ ' ' :: ("bytes is too large".toList ++ rest)) := by
            intro n rest
            show ("source of " ++ n.repr ++ " bytes is too large").toList ++ rest = _
            simp only [String.toList_append, List.append_assoc]
            rfl
          rw [htext, htext] at h
          obtain ⟨hsame, hrest⟩ := Text.eq_of_append_cons (notMem_repr (c := ' ') (by decide) size)
            (notMem_repr (by decide) size') (List.append_cancel_left h)
          exact ⟨congrArg _ (eq_of_toList_repr hsame), List.append_cancel_left hrest⟩
      | _ => exact absurd hinitial (by simp [initial])

/-- **A message has one meaning.** Two errors with the same message have the same cause, with the
same piece of source or the same size in it, in the file of the same name, at the same offset. That
holds whatever the piece and the name of the file are. -/
theorem Error.message_inj {error error' : Error} :
    error.message = error'.message ↔ error = error' := by
  constructor
  · intro h
    have htext := congrArg String.toList h
    have hcolon : ":".toList = [':'] := rfl
    simp only [Error.message, String.toList_append, List.append_assoc, hcolon,
      List.singleton_append] at htext
    obtain ⟨hcause, hbehind⟩ := Cause.delimited_message htext
    obtain ⟨hfile, hoffset⟩ := Text.eq_of_append_cons_back (notMem_repr (c := ':') (by decide) _)
      (notMem_repr (by decide) _) (List.append_cancel_left hbehind)
    obtain ⟨cause, offset, file⟩ := error
    obtain ⟨cause', offset', file'⟩ := error'
    obtain rfl : cause = cause' := hcause
    obtain rfl : offset = offset' := eq_of_toList_repr hoffset
    obtain rfl : file = file' := String.toList_inj.mp hfile
    rfl
  · exact congrArg Error.message

/-- A file may be named like the rest of a message, and a piece of source may hold it. -/
example :
    (⟨.malformedNumber "1\" at a:2", ⟨3, "b"⟩⟩ : Error).message =
        "malformed number: \"1\\\" at a:2\" at b:3"
      ∧ (⟨.malformedNumber "1", ⟨3, "a:2\" at b"⟩⟩ : Error).message =
        "malformed number: \"1\" at a:2\" at b:3" := by
  decide +kernel

end ScriptFront
