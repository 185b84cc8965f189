import ScriptFront.Proofs.ClosingQuote

/-!
# What a string body is made of

A body is read by a function that looks at one character at a time and decides how many to take.
This file says what it reads, and says it as a grammar. A body is a series of factors. Each of them
is a text with a meaning (`Factor`), and there are six sorts of them (`Factor.Fits`): a plain
character, a backslash and the letter of an escape, a code of two digits, of one, of none, and a
backslash that is kept with what follows it. The factors are put together, a quote behind them, and
what they mean is put together in the same way.

Two of the sorts have to know what follows. A code of one digit is none if another digit comes
next. So the grammar is not one of texts alone: a factor fits in front of a text. It still has no
choice (`Factor.Fits.unique`), because the factor that fits is always the item that is read
(`item_of_fits`), and conversely an item is a factor wherever it does not go past the end
(`exists_fits`).

The grammar has its own table of escapes and its own digits. That the reader has the same is said
by `namedEscape?_eq_some_iff` and `isHexDigit_iff`.
-/

namespace ScriptFront

/-! ## Letters and digits -/

/-- The letter of each escape, with the character that it means. -/
def escapes : List (Char × Char) :=
  [('n', '\n'), ('t', '\t'), ('r', '\r'), ('\\', '\\'), ('"', '"'), ('0', '\x00')]

/-- The character is the hexadecimal digit of a value, in either case. -/
def IsDigitOf (value : Nat) (c : Char) : Prop :=
  value < 16 ∧ (c = value.digitChar ∨ c = value.digitChar.toUpper)

/-- A text does not go on with a hexadecimal digit. -/
def NoDigit (rest : List Char) : Prop := ∀ c ∈ rest.head?, ∀ value, ¬ IsDigitOf value c

/-- The reader knows these escapes and no others. -/
theorem namedEscape?_eq_some_iff {letter meaning : Char} :
    namedEscape? letter = some meaning ↔ (letter, meaning) ∈ escapes := by
  constructor
  · intro h
    unfold namedEscape? at h
    split at h
    case h_7 => exact absurd h (by simp)
    all_goals
      injection h with h
      subst h
      decide
  · intro h
    simp only [escapes, List.mem_cons, Prod.mk.injEq, List.not_mem_nil, or_false] at h
    rcases h with
      ⟨rfl, rfl⟩ | ⟨rfl, rfl⟩ | ⟨rfl, rfl⟩ | ⟨rfl, rfl⟩ | ⟨rfl, rfl⟩ | ⟨rfl, rfl⟩ <;> rfl

/-- A digit is read as one, and as its value. -/
theorem IsDigitOf.read {value : Nat} {c : Char} (h : IsDigitOf value c) :
    isHexDigit c = true ∧ hexValue c = value := by
  have hall : ∀ n < 16, (isHexDigit n.digitChar = true ∧ hexValue n.digitChar = n)
      ∧ isHexDigit n.digitChar.toUpper = true ∧ hexValue n.digitChar.toUpper = n := by decide
  obtain ⟨hlt, hc⟩ := h
  rcases hc with rfl | rfl
  · exact (hall value hlt).1
  · exact (hall value hlt).2

/-- **What is read as a digit is one.** -/
theorem isHexDigit_iff {c : Char} : isHexDigit c = true ↔ ∃ value, IsDigitOf value c := by
  constructor
  · intro h
    -- a digit is one of the first characters there are, and those can be gone through
    have hall : ∀ n < 128, isHexDigit (Char.ofNat n) = true →
        hexValue (Char.ofNat n) < 16
          ∧ (Char.ofNat n = (hexValue (Char.ofNat n)).digitChar
            ∨ Char.ofNat n = (hexValue (Char.ofNat n)).digitChar.toUpper) := by decide +kernel
    have hlt : c.toNat < 128 := by
      simp only [isHexDigit, Char.isDigit, Bool.or_eq_true, Bool.and_eq_true, decide_eq_true_eq,
        ge_iff_le, UInt32.le_iff_toNat_le, Char.le_def] at h
      rcases h with (⟨-, h⟩ | ⟨-, h⟩) | ⟨-, h⟩ <;> exact Nat.lt_of_le_of_lt h (by decide)
    have hc := hall c.toNat hlt
    rw [Char.ofNat_toNat] at hc
    exact ⟨hexValue c, hc h⟩
  · intro h
    obtain ⟨value, hvalue⟩ := h
    exact hvalue.read.1

/-- The reader takes no digit where the text goes on with none. -/
theorem NoDigit.takeWhile_eq_nil {rest : List Char} (h : NoDigit rest) (k : Nat) :
    (rest.take k).takeWhile isHexDigit = [] := by
  cases rest with
  | nil => rw [List.take_nil, List.takeWhile_nil]
  | cons c rest =>
      cases k with
      | zero => rfl
      | succ k =>
          have hc : isHexDigit c ≠ true := by
            intro hdigit
            obtain ⟨value, hvalue⟩ := isHexDigit_iff.mp hdigit
            exact h c rfl value hvalue
          rw [List.take_succ_cons, List.takeWhile_cons_of_neg hc]

/-- A text goes on with a digit or with none. -/
theorem noDigit_or_exists (rest : List Char) :
    NoDigit rest ∨ ∃ c value back, rest = c :: back ∧ IsDigitOf value c := by
  cases rest with
  | nil => exact Or.inl fun c hc => absurd hc (by simp)
  | cons c back =>
      by_cases hdigit : ∃ value, IsDigitOf value c
      · obtain ⟨value, hvalue⟩ := hdigit
        exact Or.inr ⟨c, value, back, rfl, hvalue⟩
      · refine Or.inl ?_
        intro d hd value hvalue
        injection hd with hd
        exact hdigit ⟨value, hd ▸ hvalue⟩

namespace StringBody

/-! ## Factors -/

/-- A part of a body as it is written, and what it means. -/
structure Factor where
  written : List Char
  meaning : List Char
deriving DecidableEq, Repr

namespace Factor

/-- The factors that there are in front of a text. -/
inductive Fits : Factor → List Char → Prop where
  /-- A character that is neither a quote nor a backslash means itself. -/
  | plain {c : Char} {rest : List Char} : c ≠ '"' → c ≠ '\\' → Fits ⟨[c], [c]⟩ rest
  /-- A backslash and a letter mean the character that has this escape. -/
  | named {letter meaning : Char} {rest : List Char} :
      (letter, meaning) ∈ escapes → Fits ⟨['\\', letter], [meaning]⟩ rest
  /-- Two digits behind `\x` mean the character with this code. -/
  | twoDigits {c d : Char} {m n : Nat} {rest : List Char} : IsDigitOf m c → IsDigitOf n d →
      Fits ⟨['\\', 'x', c, d], [Char.ofNat (16 * m + n)]⟩ rest
  /-- So does one digit, if no other follows. -/
  | oneDigit {c : Char} {m : Nat} {rest : List Char} : IsDigitOf m c → NoDigit rest →
      Fits ⟨['\\', 'x', c], [Char.ofNat m]⟩ rest
  /-- If no digit follows, `\x` means itself. -/
  | noDigit {rest : List Char} : NoDigit rest → Fits ⟨['\\', 'x'], ['\\', 'x']⟩ rest
  /-- So does a backslash in front of any other character. -/
  | verbatim {c : Char} {rest : List Char} :
      c ≠ 'x' → (∀ meaning, (c, meaning) ∉ escapes) → Fits ⟨['\\', c], ['\\', c]⟩ rest

/-- Factors as they are written, one after the other. -/
def write (factors : List Factor) : List Char := factors.flatMap Factor.written

/-- What they mean. -/
def mean (factors : List Factor) : List Char := factors.flatMap Factor.meaning

/-- Each of the factors fits in front of the others and a text. -/
def AllFit : List Factor → List Char → Prop
  | [], _ => True
  | factor :: factors, rest => factor.Fits (write factors ++ rest) ∧ AllFit factors rest

@[simp] theorem write_nil : write [] = [] := rfl

@[simp] theorem write_cons (factor : Factor) (factors : List Factor) :
    write (factor :: factors) = factor.written ++ write factors := List.flatMap_cons

@[simp] theorem mean_nil : mean [] = [] := rfl

@[simp] theorem mean_cons (factor : Factor) (factors : List Factor) :
    mean (factor :: factors) = factor.meaning ++ mean factors := List.flatMap_cons

end Factor

open Factor

/-! ## A factor that fits is read as an item -/

/-- Behind `\x`, an item has as many digits as there are, two at most. -/
theorem item_code (rest : List Char) :
    item '\\' ('x' :: rest) =
      if (rest.take 2).takeWhile isHexDigit = [] then ⟨['\\', 'x'], 1⟩
      else ⟨[charOfHex ((rest.take 2).takeWhile isHexDigit)],
        1 + ((rest.take 2).takeWhile isHexDigit).length⟩ := rfl

/-- Behind any other character without an escape it has none. -/
theorem item_verbatim {c : Char} (hcode : c ≠ 'x') (hnamed : namedEscape? c = none)
    (rest : List Char) : item '\\' (c :: rest) = ⟨['\\', c], 1⟩ := by
  unfold item
  rw [if_neg (by decide)]
  simp only [hnamed, if_neg hcode, if_pos]

/-- With an escape, it is that. -/
theorem item_named {letter meaning : Char} (h : namedEscape? letter = some meaning)
    (rest : List Char) : item '\\' (letter :: rest) = ⟨[meaning], 1⟩ := by
  unfold item
  rw [if_neg (by decide)]
  simp only [h]

/-- A plain character is an item by itself. -/
theorem item_plain {c : Char} (h : c ≠ '\\') (rest : List Char) : item c rest = ⟨[c], 0⟩ := by
  unfold item
  rw [if_pos h]

/-- **A factor that fits is read as an item**, whole and with its meaning, and no quote begins it.
-/
theorem item_of_fits {factor : Factor} {rest : List Char} (h : factor.Fits rest) :
    ∃ c cs, factor.written = c :: cs ∧ c ≠ '"'
      ∧ item c (cs ++ rest) = ⟨factor.meaning, cs.length⟩ := by
  cases h with
  | @plain c rest hquote hslash => exact ⟨c, [], rfl, hquote, item_plain hslash rest⟩
  | @named letter meaning rest hmem =>
      exact ⟨'\\', [letter], rfl, by decide, item_named (namedEscape?_eq_some_iff.mpr hmem) rest⟩
  | @twoDigits c d m n rest hc hd =>
      obtain ⟨hhex, rfl⟩ := hc.read
      obtain ⟨hhex', rfl⟩ := hd.read
      have hdigits : ((c :: d :: rest).take 2).takeWhile isHexDigit = [c, d] := by
        simp [hhex, hhex']
      have hcode : charOfHex [c, d] = Char.ofNat (16 * hexValue c + hexValue d) := by
        simp [charOfHex]
      refine ⟨'\\', ['x', c, d], rfl, by decide, ?_⟩
      show item '\\' ('x' :: c :: d :: rest) = _
      rw [item_code, hdigits, if_neg (by simp), hcode]
      rfl
  | @oneDigit c m rest hc hnone =>
      obtain ⟨hhex, rfl⟩ := hc.read
      have hdigits : ((c :: rest).take 2).takeWhile isHexDigit = [c] := by
        rw [List.take_succ_cons, List.takeWhile_cons_of_pos hhex, hnone.takeWhile_eq_nil]
      have hcode : charOfHex [c] = Char.ofNat (hexValue c) := by
        simp [charOfHex]
      refine ⟨'\\', ['x', c], rfl, by decide, ?_⟩
      show item '\\' ('x' :: c :: rest) = _
      rw [item_code, hdigits, if_neg (by simp), hcode]
      rfl
  | @noDigit rest hnone =>
      refine ⟨'\\', ['x'], rfl, by decide, ?_⟩
      show item '\\' ('x' :: rest) = _
      rw [item_code, hnone.takeWhile_eq_nil, if_pos rfl]
      rfl
  | @verbatim c rest hcode hnamed =>
      have hnone : namedEscape? c = none := by
        rw [Option.eq_none_iff_forall_ne_some]
        intro meaning hsome
        exact hnamed meaning (namedEscape?_eq_some_iff.mp hsome)
      exact ⟨'\\', [c], rfl, by decide, item_verbatim hcode hnone rest⟩

/-- **In front of a text there is one factor that fits.** -/
theorem Factor.Fits.unique {factor other : Factor} {rest back : List Char} (h : factor.Fits rest)
    (h' : other.Fits back) (heq : factor.written ++ rest = other.written ++ back) :
    factor = other ∧ rest = back := by
  obtain ⟨written, meaning⟩ := factor
  obtain ⟨written', meaning'⟩ := other
  obtain ⟨c, cs, rfl, -, hitem⟩ := item_of_fits h
  obtain ⟨d, ds, rfl, -, hitem'⟩ := item_of_fits h'
  -- both are the item that is read there
  simp only [List.cons_append, List.cons.injEq] at heq
  obtain ⟨rfl, htail⟩ := heq
  rw [htail, hitem', Item.mk.injEq] at hitem
  obtain ⟨rfl, hlength⟩ := hitem
  obtain ⟨rfl, rfl⟩ := List.append_inj htail hlength.symm
  exact ⟨rfl, rfl⟩

/-! ## An item is a factor that fits -/

/-- Some factor begins with a code. -/
theorem exists_fits_code (rest : List Char) :
    ∃ (factor : Factor) (back : List Char), factor.Fits back
      ∧ factor.written ++ back = '\\' :: 'x' :: rest := by
  rcases noDigit_or_exists rest with hnone | ⟨c, m, rest, rfl, hc⟩
  · exact ⟨_, rest, .noDigit hnone, rfl⟩
  · rcases noDigit_or_exists rest with hnone | ⟨d, n, rest, rfl, hd⟩
    · exact ⟨_, rest, .oneDigit hc hnone, rfl⟩
    · exact ⟨_, rest, .twoDigits hc hd, rfl⟩

/-- **A factor begins every text**, except with a quote or with a backslash that ends it. -/
theorem exists_fits {c : Char} {cs : List Char} (hquote : c ≠ '"') (hend : c = '\\' → cs ≠ []) :
    ∃ (factor : Factor) (back : List Char), factor.Fits back
      ∧ factor.written ++ back = c :: cs := by
  by_cases hslash : c = '\\'
  · subst hslash
    obtain ⟨d, rest, rfl⟩ := List.exists_cons_of_ne_nil (hend rfl)
    by_cases hnamed : ∃ meaning, (d, meaning) ∈ escapes
    · obtain ⟨meaning, hmem⟩ := hnamed
      exact ⟨_, rest, .named hmem, rfl⟩
    · by_cases hcode : d = 'x'
      · subst hcode
        exact exists_fits_code rest
      · refine ⟨_, rest, .verbatim hcode ?_, rfl⟩
        intro meaning hmem
        exact hnamed ⟨meaning, hmem⟩
  · exact ⟨_, cs, .plain hquote hslash, rfl⟩

/-! ## Bodies -/

/-- **A factor that fits is read off the front of a text**, and the text is read as it is without
it. -/
theorem read?_of_fits {factor : Factor} {rest : List Char} (h : factor.Fits rest) :
    read? (factor.written ++ rest) =
      (read? rest).map fun (meaning, n) =>
        (factor.meaning ++ meaning, factor.written.length + n) := by
  obtain ⟨c, cs, hwritten, hquote, hitem⟩ := item_of_fits h
  rw [hwritten, List.cons_append, read?, if_neg hquote, hitem, List.drop_left]
  simp only [List.length_cons, Nat.add_comm 1]

/-- The same in bytes. -/
theorem decode?_of_fits {factor : Factor} {rest : List Char} (h : factor.Fits rest) :
    decode? (factor.written ++ rest) =
      (decode? rest).map fun (meaning, n) =>
        (factor.meaning ++ meaning, Text.width factor.written + n) := by
  unfold decode?
  rw [read?_of_fits h, Option.map_map, Option.map_map]
  congr 1
  funext found
  simp only [Function.comp_apply, List.take_length_add_append, Text.width_append]

/-- **Factors that fit, with a quote behind them, are read as what they mean**, whole. -/
theorem read?_write {factors : List Factor} {back : List Char}
    (h : AllFit factors ('"' :: back)) :
    read? (write factors ++ '"' :: back) = some (mean factors, (write factors).length + 1) := by
  induction factors with
  | nil => rw [write_nil, List.nil_append, read?, if_pos rfl]; rfl
  | cons factor factors ih =>
      obtain ⟨hfits, hrest⟩ := h
      rw [write_cons, mean_cons, List.append_assoc, read?_of_fits hfits, ih hrest, Option.map_some,
        List.length_append, Nat.add_assoc]

/-- In bytes, they are as wide as they are written. -/
theorem decode?_write {factors : List Factor} {back : List Char}
    (h : AllFit factors ('"' :: back)) :
    decode? (write factors ++ '"' :: back) =
      some (mean factors, Text.width (write factors) + 1) :=
  decode?_of_read?_quote (read?_write h)

/-- **What is read is made of factors that fit**, with the closing quote behind them. -/
theorem exists_factors {cs value : List Char} {n : Nat} (h : read? cs = some (value, n)) :
    ∃ factors back, cs = write factors ++ '"' :: back ∧ AllFit factors ('"' :: back) := by
  fun_induction read? cs generalizing value n with
  | case1 => exact absurd h (by simp)
  | case2 cs => exact ⟨[], cs, rfl, trivial⟩
  | case3 c cs hquote ih =>
      obtain ⟨⟨meaning, m⟩, hread, -⟩ := Option.map_eq_some_iff.mp h
      obtain ⟨factors, back, hback, hfit⟩ := ih hread
      have hend : c = '\\' → cs ≠ [] := by
        intro _ hnil
        rw [hnil, List.drop_nil] at hread
        exact absurd hread (by simp [read?])
      obtain ⟨factor, rest, hfits, hwritten⟩ := exists_fits hquote hend
      obtain ⟨d, ds, hd, -, hitem⟩ := item_of_fits hfits
      rw [hd, List.cons_append, List.cons.injEq] at hwritten
      obtain ⟨rfl, rfl⟩ := hwritten
      -- behind the factor stands what is read next
      rw [hitem, List.drop_left] at hback
      subst hback
      refine ⟨factor :: factors, back, ?_, hfits, hfit⟩
      rw [write_cons, hd, List.append_assoc, List.cons_append]

/-- **A body is made of factors in one way.** -/
theorem factors_unique {factors others : List Factor} {back rest : List Char}
    (h : AllFit factors ('"' :: back)) (h' : AllFit others ('"' :: rest))
    (heq : write factors ++ '"' :: back = write others ++ '"' :: rest) :
    factors = others ∧ back = rest := by
  induction factors generalizing others with
  | nil =>
      cases others with
      | nil =>
          injection heq with _ heq
          exact ⟨rfl, heq⟩
      | cons other others =>
          -- the quote would begin a factor
          obtain ⟨d, ds, hd, hquote, -⟩ := item_of_fits h'.1
          rw [write_cons, hd] at heq
          injection heq with heq _
          exact absurd heq.symm hquote
  | cons factor factors ih =>
      cases others with
      | nil =>
          obtain ⟨c, cs, hc, hquote, -⟩ := item_of_fits h.1
          rw [write_cons, hc] at heq
          injection heq with heq _
          exact absurd heq hquote
      | cons other others =>
          rw [write_cons, write_cons, List.append_assoc, List.append_assoc] at heq
          obtain ⟨rfl, htail⟩ := h.1.unique h'.1 heq
          obtain ⟨rfl, rfl⟩ := ih h.2 h'.2 htail
          exact ⟨rfl, rfl⟩

/-- **A body is decoded just as its grammar says.** Of a body so much is read that it is factors
and a quote, counted in bytes, and the value is what the factors mean; each of them fits in front
of what stands behind it in the body, the closing quote and all that follows it included. Nothing
is read just if no start of the body is factors and a quote. And the factors are the only ones
there are, so the quote is the only one that could be meant. -/
theorem decode?_follows_grammar (body : List Char) :
    (∀ value n, decode? body = some (value, n) ↔
        ∃ factors back, body = write factors ++ '"' :: back ∧ AllFit factors ('"' :: back)
          ∧ mean factors = value ∧ Text.width (write factors) + 1 = n)
      ∧ (decode? body = none ↔
        ¬ ∃ factors back, body = write factors ++ '"' :: back ∧ AllFit factors ('"' :: back))
      ∧ ∀ factors back others rest,
        body = write factors ++ '"' :: back → AllFit factors ('"' :: back) →
        body = write others ++ '"' :: rest → AllFit others ('"' :: rest) →
        factors = others ∧ back = rest := by
  have hsound : ∀ value n, decode? body = some (value, n) →
      ∃ factors back, body = write factors ++ '"' :: back ∧ AllFit factors ('"' :: back)
        ∧ mean factors = value ∧ Text.width (write factors) + 1 = n := by
    intro value n h
    obtain ⟨⟨meaning, m⟩, hread, -⟩ := Option.map_eq_some_iff.mp h
    obtain ⟨factors, back, rfl, hfit⟩ := exists_factors hread
    rw [decode?_write hfit] at h
    injection h with h
    injection h with hvalue hn
    exact ⟨factors, back, rfl, hfit, hvalue, hn⟩
  refine ⟨?_, ?_, ?_⟩
  · intro value n
    constructor
    · exact hsound value n
    · rintro ⟨factors, back, rfl, hfit, rfl, rfl⟩
      exact decode?_write hfit
  · constructor
    · rintro hnone ⟨factors, back, rfl, hfit⟩
      rw [decode?_write hfit] at hnone
      exact absurd hnone (by simp)
    · intro h
      cases hdecode : decode? body with
      | none => rfl
      | some found =>
          obtain ⟨factors, back, hbody, hfit, -⟩ := hsound found.1 found.2 hdecode
          exact absurd ⟨factors, back, hbody, hfit⟩ h
  · intro factors back others rest hbody hfit hbody' hfit'
    exact factors_unique hfit hfit' (hbody.symm.trans hbody')

/-- A code of one digit in front of a code of none: neither takes anything of what follows. -/
theorem decode?_follows_grammar_codes :
    decode? "\\x4\\x\"e".toList = some ("\x04\\x".toList, 6)
      ∧ ∀ factors back, "\\x4\\x\"e".toList = write factors ++ '"' :: back →
        AllFit factors ('"' :: back) →
        factors = [⟨['\\', 'x', '4'], ['\x04']⟩, ⟨['\\', 'x'], ['\\', 'x']⟩] ∧ back = ['e'] := by
  have hslash : NoDigit ['\\', 'x', '"', 'e'] := by
    intro c hc value hvalue
    injection hc with hc
    subst hc
    exact absurd hvalue.read.1 (by decide)
  have hquote : NoDigit ['"', 'e'] := by
    intro c hc value hvalue
    injection hc with hc
    subst hc
    exact absurd hvalue.read.1 (by decide)
  have hdigit : IsDigitOf 4 '4' := ⟨by decide, Or.inl rfl⟩
  have hfit : AllFit [⟨['\\', 'x', '4'], ['\x04']⟩, ⟨['\\', 'x'], ['\\', 'x']⟩] ['"', 'e'] :=
    ⟨.oneDigit hdigit hslash, .noDigit hquote, trivial⟩
  obtain ⟨hdecode, -, hunique⟩ := decode?_follows_grammar "\\x4\\x\"e".toList
  constructor
  · exact (hdecode _ _).mpr ⟨_, ['e'], rfl, hfit, rfl, rfl⟩
  · intro factors back hbody hfactors
    exact hunique factors back _ ['e'] hbody hfactors rfl hfit

end StringBody

end ScriptFront
