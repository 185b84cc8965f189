import ScriptFront.Proofs.Lexemes
import ScriptFront.Proofs.Stream

/-!
# No ties between rules

The rule that applies is the one that matches most of the text, and of two that match equally much
the one that is listed first. The second half of this is never needed: no two rules match equally
much of any text (`Rule.eq_of_reach_eq`). Most of them do not even match the same texts, because
they begin with characters of different sorts. Two marks of one length that begin a text are one
mark, and no mark is as long as a comment is at least and begins like it.

So it does not matter how a search for the best rule settles ties, nor in which order it goes
through the rules. `Rule.search` is such a search, with the settling of ties left open. Whatever it
is, the search ends with a rule that matches, and most of all (`Rule.isBest_search`), and there is
only one such rule (`Rule.IsBest.unique`).

What a session does depends on a list of rules through the rule that applies to each text and in no
other way. Two lists that choose alike (`SameChoice`) therefore lead to the same pieces, scans and
answers, and to the same runs.
-/

namespace ScriptFront

open Rule

/-- More of a text is wider. -/
theorem Text.width_take_le_iff {cs : List Char} {m n : Nat} (hm : m ≤ cs.length) :
    width (cs.take m) ≤ width (cs.take n) ↔ m ≤ n := by
  constructor
  · intro h
    refine Nat.le_of_not_lt fun hlt => ?_
    obtain ⟨k, rfl⟩ := Nat.exists_eq_add_of_lt hlt
    -- what is taken beyond `n` is not empty
    rw [Nat.add_assoc, List.take_add, width_append] at h
    have hzero : width ((cs.drop n).take (k + 1)) = 0 := by omega
    have hlength := congrArg List.length (width_eq_zero_iff.mp hzero)
    simp only [List.length_take, List.length_drop, List.length_nil] at hlength
    omega
  · intro h
    obtain ⟨k, rfl⟩ := Nat.exists_eq_add_of_le h
    rw [List.take_add, width_append]
    exact Nat.le_add_right _ _

namespace Rule

variable {rules others : List Rule} {cs : List Char} {a b : Rule}

/-! ## Two rules do not match equally much -/

/-- A mark does not reach as far as a comment. -/
theorem reach_mark_ne_reach_comment {mark : Punct} (h : (punct mark).reach cs ≠ 0) :
    (punct mark).reach cs ≠ comment.reach cs := by
  intro heq
  obtain ⟨hstarts, hlength⟩ := prefix_of_reach_mark h
  have hslashes := prefix_of_reach_comment (heq ▸ h : comment.reach cs ≠ 0)
  have htwo : 2 ≤ comment.reach cs := by
    have hstart : Describes comment ['/', '/'] := .comment List.not_mem_nil
    exact hstart.length_le_reach hslashes
  -- so it would begin with two slashes
  have hmark := List.prefix_of_prefix_length_le hslashes hstarts
    (by rw [← hlength, heq]; exact htwo)
  have hnone : ∀ m ∈ Punct.all, ['/', '/'].isPrefixOf m.spelling.toList = false := by decide
  have hfalse := hnone mark (Punct.mem_all mark)
  rw [List.isPrefixOf_iff_prefix.mpr hmark] at hfalse
  exact absurd hfalse (by decide)

/-- Two marks that reach equally far are one mark. -/
theorem mark_eq_of_reach_eq {mark other : Punct} (h : (punct mark).reach cs ≠ 0)
    (heq : (punct mark).reach cs = (punct other).reach cs) : mark = other := by
  obtain ⟨hstarts, hlength⟩ := prefix_of_reach_mark h
  obtain ⟨hstarts', hlength'⟩ := prefix_of_reach_mark (heq ▸ h : (punct other).reach cs ≠ 0)
  have hwithin : mark.spelling.toList <+: other.spelling.toList :=
    List.prefix_of_prefix_length_le hstarts hstarts' (by omega)
  exact Punct.spelling_inj (String.toList_inj.mp (hwithin.eq_of_length (by omega)))

/-- But for comments and marks, the sort of a rule is its own. -/
theorem eq_of_sort_eq (hsort : a.sort = b.sort) (hown : a.sort ≠ 4) : a = b := by
  cases a <;> cases b <;> simp_all [sort]

/-- **Rules that reach equally far into a text are one rule.** -/
theorem eq_of_reach_eq (h : a.reach cs ≠ 0) (heq : a.reach cs = b.reach cs) : a = b := by
  have h' : b.reach cs ≠ 0 := heq ▸ h
  have hsort : a.sort = b.sort := by
    cases cs with
    | nil => exact absurd (Nat.le_zero.mp (reach_le_length a [])) h
    | cons c cs => exact (sort_of_reach h).symm.trans (sort_of_reach h')
  cases a with
  | punct mark =>
      cases b with
      | punct other => exact congrArg punct (mark_eq_of_reach_eq h heq)
      | comment => exact absurd heq (reach_mark_ne_reach_comment h)
      | _ => exact absurd hsort (by simp [sort])
  | comment =>
      cases b with
      | punct other => exact absurd heq.symm (reach_mark_ne_reach_comment h')
      | comment => rfl
      | _ => exact absurd hsort (by simp [sort])
  | _ => exact eq_of_sort_eq hsort (by simp [sort])

/-- The number of bytes that a rule matches at the start of a text. -/
def matched (rule : Rule) (cs : List Char) : Nat := Text.width (cs.take (rule.reach cs))

/-- A rule matches more bytes if it reaches farther. -/
theorem matched_le_iff : a.matched cs ≤ b.matched cs ↔ a.reach cs ≤ b.reach cs :=
  Text.width_take_le_iff (reach_le_length a cs)

/-- It matches none if it reaches nowhere. -/
theorem matched_eq_zero_iff : a.matched cs = 0 ↔ a.reach cs = 0 := by
  have hle := reach_le_length a cs
  rw [matched, Text.width_eq_zero_iff, List.take_eq_nil_iff]
  constructor
  · rintro (hzero | rfl)
    · exact hzero
    · exact Nat.le_zero.mp hle
  · exact Or.inl

/-- So rules that match equally many bytes, if any, are one rule. -/
theorem eq_of_matched_eq (h : a.matched cs ≠ 0) (heq : a.matched cs = b.matched cs) : a = b := by
  refine eq_of_reach_eq (fun hzero => h (matched_eq_zero_iff.mpr hzero)) (Nat.le_antisymm ?_ ?_)
  · exact matched_le_iff.mp (Nat.le_of_eq heq)
  · exact matched_le_iff.mp (Nat.le_of_eq heq.symm)

/-! ## Searching for the best rule -/

/-- The best rule so far and the number of bytes that it matches, when one more rule has been looked
at. A rule that matches more takes the place of the best, and one that matches as much does if the
tie is settled for it. -/
def challenge (tie : Rule → Rule → Bool) (cs : List Char) (best? : Option (Rule × Nat))
    (rule : Rule) : Option (Rule × Nat) :=
  match best? with
  | none => if 0 < rule.matched cs then some (rule, rule.matched cs) else none
  | some (best, n) =>
      if n < rule.matched cs ∨ n = rule.matched cs ∧ tie best rule = true then
        some (rule, rule.matched cs)
      else some (best, n)

/-- The best of some rules, which are looked at from first to last. -/
def search (tie : Rule → Rule → Bool) (rules : List Rule) (cs : List Char) : Option (Rule × Nat) :=
  rules.foldl (challenge tie cs) none

/-- What a search should come to: a rule that matches most, or nothing if none of them matches. -/
def IsBest (rules : List Rule) (cs : List Char) : Option (Rule × Nat) → Prop
  | none => ∀ rule ∈ rules, rule.matched cs = 0
  | some (best, n) =>
      best ∈ rules ∧ n = best.matched cs ∧ n ≠ 0 ∧ ∀ rule ∈ rules, rule.matched cs ≤ n

/-- To look at one more rule keeps the best. -/
theorem IsBest.challenge {best? : Option (Rule × Nat)} (h : IsBest rules cs best?)
    (tie : Rule → Rule → Bool) (rule : Rule) :
    IsBest (rules ++ [rule]) cs (challenge tie cs best? rule) := by
  cases best? with
  | none =>
      have hnone : ∀ other ∈ rules, other.matched cs = 0 := h
      by_cases hpos : 0 < rule.matched cs
      · simp only [Rule.challenge, if_pos hpos]
        refine ⟨by simp, rfl, Nat.ne_of_gt hpos, List.forall_mem_append.mpr ⟨?_, ?_⟩⟩
        · intro other hother
          rw [hnone other hother]
          exact Nat.zero_le _
        · exact List.forall_mem_singleton.mpr (Nat.le_refl _)
      · simp only [Rule.challenge, if_neg hpos]
        exact List.forall_mem_append.mpr ⟨hnone, List.forall_mem_singleton.mpr (by omega)⟩
  | some found =>
      obtain ⟨best, n⟩ := found
      obtain ⟨hmem, hn, hpos, hmost⟩ := h
      by_cases htakes : n < rule.matched cs ∨ n = rule.matched cs ∧ tie best rule = true
      · simp only [Rule.challenge, if_pos htakes]
        have hle : n ≤ rule.matched cs := by omega
        refine ⟨by simp, rfl, by omega, List.forall_mem_append.mpr ⟨?_, ?_⟩⟩
        · intro other hother
          exact Nat.le_trans (hmost other hother) hle
        · exact List.forall_mem_singleton.mpr (Nat.le_refl _)
      · simp only [Rule.challenge, if_neg htakes]
        refine ⟨List.mem_append_left _ hmem, hn, hpos, List.forall_mem_append.mpr ⟨hmost, ?_⟩⟩
        exact List.forall_mem_singleton.mpr (by omega)

/-- **A search finds the best rule**, however it settles ties. -/
theorem isBest_search (tie : Rule → Rule → Bool) (rules : List Rule) (cs : List Char) :
    IsBest rules cs (search tie rules cs) := by
  have hgoes : ∀ (ahead seen : List Rule) (best? : Option (Rule × Nat)), IsBest seen cs best? →
      IsBest (seen ++ ahead) cs (ahead.foldl (Rule.challenge tie cs) best?) := by
    intro ahead
    induction ahead with
    | nil =>
        intro seen best? h
        rw [List.append_nil]
        exact h
    | cons rule ahead ih =>
        intro seen best? h
        rw [List.append_cons]
        exact ih _ _ (h.challenge tie rule)
  exact hgoes rules [] none (by simp [IsBest])

/-- So is the rule that applies. -/
theorem isBest_longest (rules : List Rule) (cs : List Char) :
    IsBest rules cs
      ((longest rules cs).map fun (rule, n) => (rule, Text.width (cs.take n))) := by
  cases hlongest : longest rules cs with
  | none =>
      intro rule hrule
      exact matched_eq_zero_iff.mpr (longest_eq_none_iff.mp hlongest rule hrule)
  | some best =>
      obtain ⟨rule, n⟩ := best
      obtain ⟨hmem, rfl, hpos⟩ := longest_mem hlongest
      refine ⟨hmem, rfl, ?_, ?_⟩
      · exact fun hzero => absurd (matched_eq_zero_iff.mp hzero) (Nat.ne_of_gt hpos)
      · exact fun other hother => matched_le_iff.mpr (reach_le_of_longest hlongest other hother)

/-- **There is only one best rule**, whatever the order in which the rules are listed. -/
theorem IsBest.unique {best? other? : Option (Rule × Nat)} (h : IsBest rules cs best?)
    (h' : IsBest others cs other?) (hsame : ∀ rule, rule ∈ rules ↔ rule ∈ others) :
    best? = other? := by
  cases best? with
  | none =>
      cases other? with
      | none => rfl
      | some other =>
          obtain ⟨hmem, hn, hpos, -⟩ := h'
          exact absurd (hn.trans (h _ ((hsame _).mpr hmem))) hpos
  | some best =>
      obtain ⟨hmem, hn, hpos, hmost⟩ := h
      cases other? with
      | none => exact absurd (hn.trans (h' _ ((hsame _).mp hmem))) hpos
      | some other =>
          obtain ⟨hmem', hn', -, hmost'⟩ := h'
          have hle := hmost' _ ((hsame _).mp hmem)
          have hge := hmost _ ((hsame _).mpr hmem')
          have heq : best.2 = other.2 := by omega
          have hrule := eq_of_matched_eq (hn ▸ hpos) (hn.symm.trans (heq.trans hn'))
          exact congrArg some (Prod.ext hrule heq)

/-! ## Lists of rules that choose alike -/

/-- Of two lists of rules the same rule applies to each text, with the same reach. -/
def SameChoice (rules others : List Rule) : Prop := ∀ cs, longest rules cs = longest others cs

/-- **The order of the rules decides nothing.** -/
theorem sameChoice_of_perm (h : rules.Perm others) : SameChoice rules others := by
  intro cs
  have hbest := (isBest_longest rules cs).unique (isBest_longest others cs) fun _ => h.mem_iff
  cases hfirst : longest rules cs with
  | none =>
      rw [hfirst] at hbest
      exact (Option.map_eq_none_iff.mp hbest.symm).symm
  | some best =>
      obtain ⟨rule, n⟩ := best
      rw [hfirst] at hbest
      obtain ⟨⟨other, m⟩, hsecond, heq⟩ := Option.map_eq_some_iff.mp hbest.symm
      -- the rules are the same, and each reach is that of its rule
      obtain ⟨-, hn, -⟩ := longest_mem hfirst
      obtain ⟨-, hm, -⟩ := longest_mem hsecond
      have hrule : other = rule := congrArg Prod.fst heq
      rw [hsecond, hn, hm, hrule]

namespace SameChoice

variable {s : Session}

/-- They cut the same piece off a text. -/
theorem cut (h : SameChoice rules others) (cs : List Char) :
    Piece.cut rules cs = Piece.cut others cs := by
  cases cs with
  | nil => rfl
  | cons c cs => simp only [Piece.cut, h (c :: cs)]

/-- They scan it alike. -/
theorem scan (h : SameChoice rules others) (cs : List Char) :
    Scan.of rules cs = Scan.of others cs := by
  fun_induction Scan.of rules cs with
  | case1 cs lexeme rest hcut ih =>
      rw [h.cut] at hcut
      rw [Scan.of_eq_of_skip hcut, ih]
  | case2 cs finding hcut =>
      rw [h.cut] at hcut
      rw [Scan.of_eq_of_found hcut]

/-- Reading to the end gives the same results and ends in the same session. -/
theorem sweepText (h : SameChoice rules others) (s : Session) (cs : List Char) :
    (s.sweepText rules cs).results = (s.sweepText others cs).results
      ∧ (s.sweepText rules cs).session = (s.sweepText others cs).session := by
  induction cs using Scan.token_induction rules generalizing s with
  | last cs hrest =>
      obtain ⟨hresults, hsession⟩ := @Session.sweepText_of_rest?_none rules s cs hrest
      rw [h.scan] at hrest
      obtain ⟨hresults', hsession'⟩ := @Session.sweepText_of_rest?_none others s cs hrest
      rw [hresults, hsession, hresults', hsession', h.scan]
      exact ⟨rfl, rfl⟩
  | token cs rest hrest ih =>
      obtain ⟨hresults, hsession⟩ := @Session.sweepText_of_rest?_some rules s cs rest hrest
      rw [h.scan] at hrest
      obtain ⟨hresults', hsession'⟩ := @Session.sweepText_of_rest?_some others s cs rest hrest
      obtain ⟨htail, hend⟩ := ih (s.settle (Scan.of rules cs)).2
      rw [hresults, hsession, hresults', hsession', htail, hend, h.scan]
      exact ⟨rfl, rfl⟩

/-- So does each call for one token. -/
theorem nextToken? (h : SameChoice rules others) : s.nextToken? rules = s.nextToken? others := by
  unfold Session.nextToken?
  simp only [h.scan]

theorem next? (h : SameChoice rules others) : s.next? rules = s.next? others := by
  unfold Session.next?
  rw [h.nextToken?]

theorem collect? (h : SameChoice rules others) : s.collect? rules = s.collect? others := by
  unfold Session.collect? Session.sweep?
  cases s.finished with
  | true => rfl
  | false =>
      cases s.oversize? with
      | some error => rfl
      | none =>
          cases s.unread? with
          | none => rfl
          | some cs =>
              obtain ⟨hresults, hsession⟩ := h.sweepText s cs
              show some ((s.sweepText rules cs).result, (s.sweepText rules cs).session) =
                some ((s.sweepText others cs).result, (s.sweepText others cs).session)
              rw [Session.Sweep.result_eq, Session.Sweep.result_eq, hresults, hsession]

/-- **They answer every call alike.** -/
theorem answer (h : SameChoice rules others) (call : Call) :
    s.answer rules call = s.answer others call := by
  unfold Session.answer
  cases call with
  | nextToken => simp only [h.nextToken?]
  | next => simp only [h.next?]
  | collect => simp only [h.collect?]
  | _ => rfl

/-- **And every run.** -/
theorem run (h : SameChoice rules others) (calls : List Call) :
    s.run rules calls = s.run others calls := by
  induction calls generalizing s with
  | nil => rfl
  | cons call calls ih => rw [Session.run_cons, Session.run_cons, h.answer, ih]

/-- To read a whole source comes to the same, however long it is. -/
theorem tokenizeWith (h : SameChoice rules others) (source : String) (file? : Option String) :
    tokenizeWith rules source file? = tokenizeWith others source file? := by
  unfold ScriptFront.tokenizeWith
  dsimp only
  cases (Session.start source file?).oversize? with
  | some error => rfl
  | none =>
      obtain ⟨hresults, -⟩ := h.sweepText (Session.start source file?) source.toList
      show (Session.sweepText rules _ source.toList).result =
        (Session.sweepText others _ source.toList).result
      rw [Session.Sweep.result_eq, Session.Sweep.result_eq, hresults]

end SameChoice

/-- **The rules can be listed in any order.** No two entries of the table match equally many bytes
of any text, unless they match none. So a search through the rules in any order, that settles ties
in any way, comes to the rule that applies; and every session, whatever is asked of it, answers as
it does with the table as it is, and is left the same after each answer. -/
theorem rules_in_any_order (hperm : rules.Perm table) :
    (∀ cs, table.Pairwise fun a b => a.matched cs = b.matched cs → a.matched cs = 0)
      ∧ (∀ tie cs, search tie rules cs =
          (longest table cs).map fun (rule, n) => (rule, Text.width (cs.take n)))
      ∧ (∀ (s : Session) (calls : List Call), s.run rules calls = s.run table calls)
      ∧ ∀ source file?, ScriptFront.tokenizeWith rules source file? = tokenize source file? := by
  have hsame := sameChoice_of_perm hperm
  refine ⟨?_, ?_, fun s calls => hsame.run calls, hsame.tokenizeWith⟩
  · intro cs
    have hdistinct : table.Nodup := by decide
    refine hdistinct.imp ?_
    intro a b hne heq
    exact Classical.byContradiction fun hpos => hne (eq_of_matched_eq hpos heq)
  · intro tie cs
    exact (isBest_search tie rules cs).unique (isBest_longest table cs) fun _ => hperm.mem_iff

/-- With the table read backwards, the slash comes before the comment and one plus sign before two;
ties would go to the later rule. -/
theorem rules_in_any_order_backwards :
    table.reverse.Perm table
      ∧ search (fun _ _ => true) table.reverse "//é".toList = some (comment, 4)
      ∧ ((Session.start "++//é\n&" none).run table.reverse
          [.recordTrivia, .nextToken, .nextToken, .trivia]).map (·.1) =
        [.done, .token ⟨.punct .plusPlus, "", ⟨⟨0, "shell"⟩, ⟨2, "shell"⟩⟩⟩,
          .error ⟨.invalidCharacter '&', ⟨7, "shell"⟩⟩,
          .spans [⟨⟨2, "shell"⟩, ⟨6, "shell"⟩⟩, ⟨⟨6, "shell"⟩, ⟨7, "shell"⟩⟩]] := by
  have hperm := List.reverse_perm table
  obtain ⟨-, hsearch, hrun, -⟩ := rules_in_any_order hperm
  refine ⟨hperm, ?_, ?_⟩
  · rw [hsearch]
    decide +kernel
  · rw [hrun]
    decide +kernel

end Rule

end ScriptFront
