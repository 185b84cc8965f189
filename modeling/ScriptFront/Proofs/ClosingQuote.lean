import ScriptFront.Lexeme.StringBody
import ScriptFront.Text.Bytes

/-!
# Where a string ends

`StringBody.read?` goes item by item, and an item can be one character or four. Seen from outside,
a string ends at the first quote with an even number of backslashes right before it, counted from
the opening quote on. This file shows that the two agree.

Between them stands `closing?`, which goes character by character and remembers one bit: whether
the character it looks at is escaped. An item is an escaped character and some hexadecimal digits
at most, and no digit is a quote or a backslash, so going by items finds the same quote
(`read?_length`). And the bit is the parity of the run of backslashes before the character
(`isEscaped_append`), so the quote is the one that is wanted (`closing?_eq_some`).

Readers of a source count in bytes. `decode?` is `read?` with the bytes counted, and the quote is
then the first of those that have an offset in the body and are not escaped (`exists_decode?_iff`).
-/

namespace ScriptFront

/-- Whether a character behind a text is escaped: an odd number of backslashes ends the text. -/
def isEscaped (before : List Char) : Bool :=
  (before.reverse.takeWhile (· == '\\')).length % 2 == 1

/-- A character is escaped by a backslash that is not. -/
theorem isEscaped_append (before : List Char) (c : Char) :
    isEscaped (before ++ [c]) = (c == '\\' && !isEscaped before) := by
  unfold isEscaped
  rw [List.reverse_append, List.reverse_singleton, List.singleton_append, List.takeWhile_cons]
  by_cases hc : c = '\\'
  · subst hc
    rw [if_pos (by decide), List.length_cons]
    generalize (before.reverse.takeWhile (· == '\\')).length = n
    rcases Nat.mod_two_eq_zero_or_one n with hn | hn
    · have hsucc : (n + 1) % 2 = 1 := by omega
      rw [hn, hsucc]
      rfl
    · have hsucc : (n + 1) % 2 = 0 := by omega
      rw [hn, hsucc]
      rfl
  · have hbeq : (c == '\\') = false := beq_false_of_ne hc
    rw [hbeq]
    rfl

/-- A quote is one byte wide. -/
theorem Text.width_quote (cs : List Char) : width ('"' :: cs) = 1 + width cs := rfl

namespace StringBody

/-- The place of the first quote that is not escaped, given whether the first character is. -/
def closing? (escaped : Bool) : List Char → Option Nat
  | [] => none
  | c :: cs =>
      if c = '"' ∧ escaped = false then some 0
      else (closing? (c == '\\' && !escaped) cs).map (· + 1)

/-! ## Character by character -/

/-- A quote is passed over only for being escaped. -/
theorem isEscaped_of_passed {before : List Char} {c : Char}
    (h : ¬ (c = '"' ∧ isEscaped before = false)) (hquote : c = '"') : isEscaped before = true := by
  cases hbefore : isEscaped before with
  | true => rfl
  | false => exact absurd ⟨hquote, hbefore⟩ h

/-- **The quote that is found is not escaped, and all quotes before it are.** -/
theorem closing?_eq_some {before cs : List Char} {i : Nat}
    (h : closing? (isEscaped before) cs = some i) :
    ∃ body rest, cs = body ++ '"' :: rest ∧ body.length = i
      ∧ isEscaped (before ++ body) = false
      ∧ ∀ front back, body = front ++ '"' :: back → isEscaped (before ++ front) = true := by
  induction cs generalizing before i with
  | nil => simp [closing?] at h
  | cons c cs ih =>
      -- the text before the next character is longer by this one, and the parity goes along
      rw [closing?] at h
      by_cases hc : c = '"' ∧ isEscaped before = false
      · rw [if_pos hc] at h
        obtain ⟨rfl, hescaped⟩ := hc
        refine ⟨[], cs, rfl, Option.some.inj h, by rwa [List.append_nil], ?_⟩
        intro front back hnil
        exact absurd hnil (by simp)
      · rw [if_neg hc, ← isEscaped_append] at h
        obtain ⟨j, hj, rfl⟩ := Option.map_eq_some_iff.mp h
        obtain ⟨body, rest, rfl, hlength, hescaped, hfirst⟩ := ih hj
        rw [List.append_assoc, List.singleton_append] at hescaped
        refine ⟨c :: body, rest, rfl, by rw [List.length_cons, hlength], hescaped, ?_⟩
        intro front back hbody
        cases front with
        | nil =>
            injection hbody with hquote _
            rw [List.append_nil]
            exact isEscaped_of_passed hc hquote
        | cons d front =>
            injection hbody with hd hbody
            subst hd
            have hfront := hfirst front back hbody
            rwa [List.append_assoc, List.singleton_append] at hfront

/-- If none is found, all quotes are escaped. -/
theorem isEscaped_of_closing?_eq_none {before cs : List Char}
    (h : closing? (isEscaped before) cs = none) {front back : List Char}
    (hcs : cs = front ++ '"' :: back) : isEscaped (before ++ front) = true := by
  induction cs generalizing before front with
  | nil => exact absurd hcs (by simp)
  | cons c cs ih =>
      rw [closing?] at h
      by_cases hc : c = '"' ∧ isEscaped before = false
      · rw [if_pos hc] at h
        exact absurd h (by simp)
      · rw [if_neg hc, ← isEscaped_append, Option.map_eq_none_iff] at h
        cases front with
        | nil =>
            injection hcs with hquote _
            rw [List.append_nil]
            exact isEscaped_of_passed hc hquote
        | cons d front =>
            injection hcs with hd hcs
            subst hd
            have hfront := ih h hcs
            rwa [List.append_assoc, List.singleton_append] at hfront

/-! ## Item by item -/

/-- Hexadecimal digits neither close a string nor escape anything. -/
theorem closing?_hexDigits {digits : List Char} (h : ∀ c ∈ digits, isHexDigit c = true)
    (cs : List Char) :
    closing? false (digits ++ cs) = (closing? false cs).map (· + digits.length) := by
  induction digits with
  | nil => simp
  | cons c digits ih =>
      have hc : isHexDigit c = true := h c List.mem_cons_self
      have hquote : c ≠ '"' := by
        intro heq
        subst heq
        exact absurd hc (by decide)
      have hslash : (c == '\\') = false := by
        refine beq_false_of_ne ?_
        intro heq
        subst heq
        exact absurd hc (by decide)
      have hrest := ih fun d hd => h d (List.mem_cons_of_mem c hd)
      rw [List.cons_append, closing?, if_neg (fun hand => hquote hand.1), hslash,
        Bool.false_and, hrest, Option.map_map, List.length_cons]
      congr 1

/-- Behind a backslash, an item goes on with one character and then with digits. -/
theorem item_backslash (d : Char) (rest : List Char) :
    ∃ digits, digits <+: rest ∧ (∀ c ∈ digits, isHexDigit c = true)
      ∧ (item '\\' (d :: rest)).tail = digits.length + 1 := by
  unfold item
  rw [if_neg (by decide)]
  cases hnamed : namedEscape? d with
  | some meaning =>
      refine ⟨[], List.nil_prefix, by simp, ?_⟩
      simp only [hnamed, List.length_nil]
  | none =>
      refine ⟨if d = 'x' then (rest.take 2).takeWhile isHexDigit else [], ?_, ?_, ?_⟩
      · split
        · exact (List.takeWhile_prefix _).trans (List.take_prefix 2 rest)
        · exact List.nil_prefix
      · split
        · exact List.all_eq_true.mp List.all_takeWhile
        · simp
      · simp only [hnamed]
        generalize (if d = 'x' then (rest.take 2).takeWhile isHexDigit else []) = digits
        split
        · rename_i hnil
          rw [hnil]
          rfl
        · exact Nat.add_comm 1 _

/-- An item is passed over whole: no quote in it closes the string. -/
theorem closing?_item {c : Char} (h : c ≠ '"') (cs : List Char) :
    closing? false (c :: cs) =
      (closing? false (cs.drop (item c cs).tail)).map (· + (1 + (item c cs).tail)) := by
  rw [closing?, if_neg (fun hand => h hand.1), Bool.not_false, Bool.and_true]
  by_cases hslash : c = '\\'
  · subst hslash
    cases cs with
    | nil => rfl
    | cons d rest =>
        -- the escaped character is passed over whatever it is, and so are digits behind it
        obtain ⟨digits, ⟨back, rfl⟩, hhex, htail⟩ := item_backslash d rest
        rw [beq_self_eq_true, closing?, if_neg (by simp), Bool.not_true, Bool.and_false,
          closing?_hexDigits hhex, htail, List.drop_succ_cons, List.drop_left, Option.map_map,
          Option.map_map]
        congr 1
        funext n
        simp only [Function.comp_apply]
        omega
  · have hbeq : (c == '\\') = false := beq_false_of_ne hslash
    have htail : (item c cs).tail = 0 := by
      unfold item
      rw [if_pos hslash]
    rw [hbeq, htail]
    rfl

/-- **Reading goes as far as the first quote that is not escaped.** -/
theorem read?_length (cs : List Char) :
    (read? cs).map (·.2) = (closing? false cs).map (· + 1) := by
  fun_induction read? cs with
  | case1 => rfl
  | case2 cs => rfl
  | case3 c cs hquote ih =>
      rw [closing?_item hquote]
      cases hread : read? (cs.drop (item c cs).tail) with
      | none =>
          rw [hread] at ih
          rw [Option.map_eq_none_iff.mp ih.symm]
          rfl
      | some found =>
          rw [hread] at ih
          obtain ⟨i, hi, hlength⟩ := Option.map_eq_some_iff.mp ih.symm
          have hsum : 1 + (item c cs).tail + found.2 = i + (1 + (item c cs).tail) + 1 := by
            have : i + 1 = found.2 := hlength
            omega
          rw [hi]
          exact congrArg some hsum

/-- **A string that is closed ends at the first quote that is not escaped.** -/
theorem read?_eq_some {cs value : List Char} {n : Nat} (h : read? cs = some (value, n)) :
    ∃ body rest, cs = body ++ '"' :: rest ∧ n = body.length + 1 ∧ isEscaped body = false
      ∧ ∀ front back, body = front ++ '"' :: back → isEscaped front = true := by
  have hlength := read?_length cs
  rw [h] at hlength
  obtain ⟨i, hclosing, hi⟩ := Option.map_eq_some_iff.mp hlength.symm
  obtain ⟨body, rest, hcs, rfl, hescaped, hfirst⟩ := @closing?_eq_some [] cs i hclosing
  exact ⟨body, rest, hcs, hi.symm, hescaped, hfirst⟩

/-- **A string is not closed just if all quotes are escaped.** -/
theorem read?_eq_none_iff {cs : List Char} :
    read? cs = none ↔ ∀ body rest, cs = body ++ '"' :: rest → isEscaped body = true := by
  have hlength := read?_length cs
  constructor
  · intro h body rest hcs
    rw [h] at hlength
    have hclosing := Option.map_eq_none_iff.mp hlength.symm
    exact @isEscaped_of_closing?_eq_none [] cs hclosing body rest hcs
  · intro h
    cases hread : read? cs with
    | none => rfl
    | some found =>
        obtain ⟨body, rest, hcs, -, hescaped, -⟩ := read?_eq_some hread
        rw [h body rest hcs] at hescaped
        exact absurd hescaped (by decide)

/-! ## In front of more text -/

/-- A short run is the same in front of more text, unless it reaches up to that. -/
theorem takeWhile_take_append {p : Char → Bool} {k : Nat} {cs : List Char}
    (h : cs.drop ((cs.take k).takeWhile p).length ≠ []) (more : List Char) :
    ((cs ++ more).take k).takeWhile p = (cs.take k).takeWhile p := by
  induction k generalizing cs with
  | zero => rfl
  | succ k ih =>
      cases cs with
      | nil => exact absurd List.drop_nil h
      | cons c cs =>
          rw [List.take_succ_cons, List.takeWhile_cons] at h
          rw [List.cons_append, List.take_succ_cons, List.take_succ_cons, List.takeWhile_cons,
            List.takeWhile_cons]
          by_cases hc : p c = true
          · rw [if_pos hc] at h
            rw [if_pos hc, if_pos hc, ih h]
          · rw [if_neg hc, if_neg hc]

/-- An item is the same in front of more text, unless it reaches up to that. -/
theorem item_append {c : Char} {cs : List Char} (h : cs.drop (item c cs).tail ≠ [])
    (more : List Char) : item c (cs ++ more) = item c cs := by
  by_cases hslash : c = '\\'
  · subst hslash
    cases cs with
    | nil => exact absurd rfl h
    | cons d rest =>
        unfold item at h ⊢
        rw [if_neg (by decide)] at h ⊢
        rw [if_neg (by decide)]
        cases hnamed : namedEscape? d with
        | some meaning => simp only [List.cons_append, hnamed]
        | none =>
            simp only [hnamed, List.cons_append] at h ⊢
            by_cases hx : d = 'x'
            · simp only [if_pos hx] at h ⊢
              rw [takeWhile_take_append]
              by_cases hdigits : (rest.take 2).takeWhile isHexDigit = []
              · rw [if_pos hdigits] at h
                rw [hdigits]
                exact h
              · rw [if_neg hdigits, Nat.add_comm] at h
                exact h
            · simp only [if_neg hx]
  · unfold item
    rw [if_pos hslash, if_pos hslash]

/-- **A string that is closed is read the same in front of more text.** -/
theorem read?_append {cs value : List Char} {n : Nat} (h : read? cs = some (value, n))
    (more : List Char) : read? (cs ++ more) = some (value, n) := by
  fun_induction read? cs generalizing value n with
  | case1 => exact absurd h (by simp)
  | case2 cs =>
      rw [List.cons_append, read?, if_pos rfl]
      exact h
  | case3 c cs hquote ih =>
      obtain ⟨⟨meaning, m⟩, hread, hvalue⟩ := Option.map_eq_some_iff.mp h
      -- the quote is still to come behind the item, so the item does not end the text
      have hne : cs.drop (item c cs).tail ≠ [] := by
        intro hnil
        rw [hnil] at hread
        exact absurd hread (by simp [read?])
      have htail : (item c cs).tail ≤ cs.length := by
        have hpos := List.length_pos_iff.mpr hne
        rw [List.length_drop] at hpos
        omega
      rw [List.cons_append, read?, if_neg hquote, item_append hne,
        List.drop_append_of_le_length htail, ih hread]
      exact congrArg some hvalue

/-! ## In bytes -/

/-- The meaning of a body up to the closing quote, and the number of bytes read with the quote, if
there is one. -/
def decode? (cs : List Char) : Option (List Char × Nat) :=
  (read? cs).map fun (meaning, n) => (meaning, Text.width (cs.take n))

/-- At this offset of a body stands a quote that is not escaped. -/
def ClosesAt (cs : List Char) (offset : Nat) : Prop :=
  ∃ front back, cs = front ++ '"' :: back ∧ Text.width front = offset ∧ isEscaped front = false

/-- It is the first quote that is not. -/
def EndsAt (cs : List Char) (offset : Nat) : Prop :=
  ClosesAt cs offset ∧ ∀ other, ClosesAt cs other → offset ≤ other

/-- A body has one end at most. -/
theorem EndsAt.unique {cs : List Char} {p q : Nat} (hp : EndsAt cs p) (hq : EndsAt cs q) :
    p = q := by
  have hle := hp.2 q hq.1
  have hge := hq.2 p hp.1
  omega

/-- What is read of a body is as wide as its text. -/
theorem decode?_of_read? {body rest value : List Char}
    (h : read? (body ++ rest) = some (value, body.length)) :
    decode? (body ++ rest) = some (value, Text.width body) := by
  unfold decode?
  rw [h, Option.map_some]
  dsimp only
  rw [List.take_left]

/-- With the quote that is read last, it is one byte wider. -/
theorem decode?_of_read?_quote {body back value : List Char}
    (h : read? (body ++ '"' :: back) = some (value, body.length + 1)) :
    decode? (body ++ '"' :: back) = some (value, Text.width body + 1) := by
  have hquote : (body ++ ['"']).length = body.length + 1 := List.length_append
  rw [List.append_cons] at h ⊢
  rw [← hquote] at h
  rw [decode?_of_read? h, Text.width_append]
  rfl

/-- A quote that is not escaped stands behind any text that has only escaped ones. -/
theorem width_le_of_closesAt {body rest : List Char} {offset : Nat}
    (hfirst : ∀ front back, body = front ++ '"' :: back → isEscaped front = true)
    (h : ClosesAt (body ++ '"' :: rest) offset) : Text.width body ≤ offset := by
  obtain ⟨front, back, hcs, rfl, hescaped⟩ := h
  rcases List.prefix_or_prefix_of_prefix (List.prefix_append body ('"' :: rest))
    (hcs ▸ List.prefix_append front ('"' :: back)) with ⟨more, rfl⟩ | ⟨more, rfl⟩
  · rw [Text.width_append]
    omega
  · -- a quote within the body would be escaped, so nothing of the body is behind it
    cases more with
    | nil => exact Nat.le_of_eq (congrArg Text.width (List.append_nil front))
    | cons c more =>
        rw [List.append_assoc] at hcs
        obtain ⟨hquote, -⟩ := List.cons.inj (List.append_cancel_left hcs)
        have hpassed := hfirst front more (by rw [hquote])
        rw [hescaped] at hpassed
        exact absurd hpassed Bool.false_ne_true

/-- **The closing quote is the last byte that is read**, and the first quote that is not escaped. -/
theorem endsAt_of_decode? {cs value : List Char} {n : Nat} (h : decode? cs = some (value, n)) :
    ∃ offset, EndsAt cs offset ∧ n = offset + 1 := by
  obtain ⟨⟨meaning, m⟩, hread, hpair⟩ := Option.map_eq_some_iff.mp h
  obtain ⟨body, rest, rfl, rfl, hescaped, hfirst⟩ := read?_eq_some hread
  refine ⟨Text.width body, ⟨⟨body, rest, rfl, rfl, hescaped⟩, ?_⟩, ?_⟩
  · intro other hother
    exact width_le_of_closesAt hfirst hother
  · have htake : (body ++ '"' :: rest).take (body.length + 1) = body ++ ['"'] := by
      rw [List.append_cons, List.take_left' (by simp)]
    have hwidth : Text.width ((body ++ '"' :: rest).take (body.length + 1)) = n :=
      congrArg Prod.snd hpair
    rw [← hwidth, htake, Text.width_append]
    rfl

/-- **Nothing is decoded just if every quote is escaped.** -/
theorem decode?_eq_none_iff {cs : List Char} :
    decode? cs = none ↔ ∀ offset, ¬ ClosesAt cs offset := by
  unfold decode?
  rw [Option.map_eq_none_iff, read?_eq_none_iff]
  constructor
  · intro h offset hcloses
    obtain ⟨front, back, hcs, -, hescaped⟩ := hcloses
    rw [h front back hcs] at hescaped
    exact absurd hescaped (by simp)
  · intro h front back hcs
    cases hescaped : isEscaped front with
    | true => rfl
    | false => exact absurd ⟨front, back, hcs, rfl, hescaped⟩ (h (Text.width front))

/-- **A body is decoded just up to its end.** -/
theorem exists_decode?_iff {cs : List Char} {n : Nat} :
    (∃ value, decode? cs = some (value, n)) ↔ ∃ offset, EndsAt cs offset ∧ n = offset + 1 := by
  constructor
  · intro h
    obtain ⟨value, hvalue⟩ := h
    exact endsAt_of_decode? hvalue
  · intro h
    obtain ⟨offset, hends, rfl⟩ := h
    cases hdecode : decode? cs with
    | none => exact absurd hends.1 (decode?_eq_none_iff.mp hdecode offset)
    | some found =>
        obtain ⟨other, hother, hn⟩ := endsAt_of_decode? hdecode
        rw [hends.unique hother, ← hn]
        exact ⟨found.1, rfl⟩

end StringBody

end ScriptFront
