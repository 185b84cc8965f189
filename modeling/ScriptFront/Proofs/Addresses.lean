import ScriptFront.Proofs.Lookup
import ScriptFront.Proofs.Tiling

/-!
# Lines and columns as addresses

A line number and a column say where a place is just as well as its offset does. They lead back to
it: the offset is the width of all the lines above, each with its newline, and of the characters of
the line in front of the column (`Location.LeadsTo`). And they keep the order of places
(`Location.before_of_lt`). Between two places there is some text. If it has a newline in it, the
second place is on a later line, and if it has none, it only makes the last line longer
(`Text.lastLine_append`).

The tokens of a source begin at rising offsets, so their lines and columns rise as well.
-/

namespace ScriptFront

namespace Text

/-- What is put behind a text without a newline makes its last line longer. -/
theorem lastLine_append {tail : List Char} (h : '\n' ∉ tail) (cs : List Char) :
    lastLine (cs ++ tail) = lastLine cs ++ tail := by
  induction cs using line_induction with
  | last body hbody =>
      rw [lastLine_of_notMem hbody, lastLine_of_notMem (by simp [hbody, h])]
  | line body rest _ ih =>
      rw [List.append_assoc, List.cons_append, lastLine_append_newline, lastLine_append_newline, ih]

/-- **The lines in front of a place.** There is one for each newline, they have it at their ends,
and with the last line they make up the text in front of the place. -/
theorem take_lines (front back : List Char) :
    ((lines (front ++ back)).take (front.count '\n')).flatten ++ lastLine front = front
      ∧ ((lines (front ++ back)).take (front.count '\n')).length = front.count '\n'
      ∧ ∀ line ∈ (lines (front ++ back)).take (front.count '\n'), line.getLast? = some '\n' := by
  induction front using line_induction with
  | last body hbody =>
      rw [List.count_eq_zero.mpr hbody, lastLine_of_notMem hbody, List.take_zero]
      exact ⟨rfl, rfl, by simp⟩
  | line body rest hbody ih =>
      obtain ⟨hflatten, hlength, hended⟩ := ih
      have hcount : (body ++ '\n' :: rest).count '\n' = rest.count '\n' + 1 := by
        rw [List.count_append, List.count_eq_zero.mpr hbody, List.count_cons_self, Nat.zero_add]
      rw [List.append_assoc, List.cons_append, lines_append_newline hbody, hcount,
        List.take_succ_cons, lastLine_append_newline]
      refine ⟨?_, by rw [List.length_cons, hlength], ?_⟩
      · rw [List.flatten_cons, List.append_assoc, hflatten, List.append_assoc]
        rfl
      · intro line hline
        rcases List.mem_cons.mp hline with rfl | hline
        · exact List.getLast?_concat
        · exact hended line hline

/-- Of two starts of a text the one that is no wider is a start of the other. -/
theorem isPrefix_of_width_le {front front' cs : List Char} (h : front <+: cs) (h' : front' <+: cs)
    (hle : width front ≤ width front') : front <+: front' := by
  rcases List.prefix_or_prefix_of_prefix h h' with hstarts | ⟨more, rfl⟩
  · exact hstarts
  · rw [width_append] at hle
    obtain rfl : more = [] := width_eq_zero_iff.mp (by omega)
    exact ⟨[], by simp only [List.append_nil]⟩

end Text

open Text

namespace Location

/-- One location comes before another if it is on an earlier line, or on the same line at a smaller
column. -/
def Before (a b : Location) : Prop := a.line < b.line ∨ a.line = b.line ∧ a.column < b.column

/-- The lines of a text above that of a location. -/
def above (text : List Char) (location : Location) : List (List Char) :=
  (lines text).take (location.line - 1)

/-- A location leads back to an offset in its text. -/
structure LeadsTo (text : List Char) (location : Location) (offset : Nat) : Prop where
  /-- The line number is one more than the number of lines above. -/
  line_eq : location.line = (location.above text).length + 1
  /-- Each of these is ended by a newline. -/
  ended : ∀ line ∈ location.above text, line.getLast? = some '\n'
  /-- The line has as many characters as the column says. -/
  column_le : location.column ≤ location.text.length
  /-- The offset is the width of the lines above and of the line in front of the column. -/
  offset_eq :
    offset = width (location.above text).flatten + width (location.text.take location.column)

variable {source : String} {p q : Nat}

/-- **A location leads back to the offset that it is found for.** -/
theorem leadsTo_of_isBoundary (h : IsBoundary source p) :
    ∃ location, find? source.toList p = some location ∧ location.LeadsTo source.toList p := by
  obtain ⟨front, back, htext, rfl⟩ := isBoundary_iff.mp h
  obtain ⟨hflatten, hlength, hended⟩ := take_lines front back
  rw [htext]
  refine ⟨_, find?_width_append front back, ?_⟩
  have habove : ∀ text column, above (front ++ back) ⟨1 + front.count '\n', text, column⟩ =
      (lines (front ++ back)).take (front.count '\n') := by
    intro text column
    rw [above, Nat.add_sub_cancel_left]
  constructor
  · rw [habove, hlength, Nat.add_comm]
  · rw [habove]
    exact hended
  · rw [List.length_append]
    exact Nat.le_add_right _ _
  · rw [habove, List.take_left, ← width_append, hflatten]

/-- **Of two places the one in front has the location before.** -/
theorem before_of_lt (hp : IsBoundary source p) (hq : IsBoundary source q) (hlt : p < q) :
    ∃ a b, find? source.toList p = some a ∧ find? source.toList q = some b ∧ a.Before b := by
  obtain ⟨front, back, htext, rfl⟩ := isBoundary_iff.mp hp
  obtain ⟨front', back', htext', rfl⟩ := isBoundary_iff.mp hq
  obtain ⟨between, hfront⟩ :=
    isPrefix_of_width_le ⟨back, htext.symm⟩ ⟨back', htext'.symm⟩ (Nat.le_of_lt hlt)
  have hne : between ≠ [] := by
    rintro rfl
    rw [← hfront, List.append_nil] at hlt
    exact Nat.lt_irrefl _ hlt
  have hfind := find?_width_append front back
  have hfind' := find?_width_append front' back'
  rw [← htext] at hfind
  rw [← htext'] at hfind'
  refine ⟨_, _, hfind, hfind', ?_⟩
  unfold Before
  dsimp only
  rw [← hfront, List.count_append]
  by_cases hnewline : '\n' ∈ between
  · have hpos := List.count_pos_iff.mpr hnewline
    exact Or.inl (by omega)
  · have hpos := List.length_pos_iff.mpr hne
    rw [List.count_eq_zero.mpr hnewline, lastLine_append hnewline, List.length_append]
    exact Or.inr ⟨by omega, by omega⟩

/-- Locations in order are not on one line at one column. -/
theorem Before.ne {a b : Location} (h : a.Before b) : (a.line, a.column) ≠ (b.line, b.column) := by
  intro heq
  injection heq with hline hcolumn
  rcases h with hlt | ⟨-, hlt⟩
  · omega
  · omega

end Location

/-! ## Where tokens begin -/

namespace Session

/-- What a source is read as without a mistake are all its results, and it is not too long. -/
theorem results_of_tokenize {source : String} {file? : Option String} {tokens : List Token}
    (h : tokenize source file? = .ok tokens) :
    width source.toList ≤ maxOffset
      ∧ ((start source file?).sweepText Rule.table source.toList).results = tokens.map .ok := by
  have hsize : width source.toList ≤ maxOffset := by
    refine Nat.le_of_not_lt fun hlt => ?_
    rw [tokenize_of_oversize file? hlt] at h
    exact absurd h (by simp)
  refine ⟨hsize, ?_⟩
  obtain ⟨read, last, hresults, -, -⟩ :=
    exists_results Rule.table (start source file?) source.toList
  rw [tokenize_eq file? hsize, hresults, mapM_id_stream] at h
  cases last with
  | error error => exact absurd h (by simp)
  | ok eof =>
      injection h with h
      rw [hresults, ← h, List.map_append]
      rfl

/-- Its tokens begin at boundaries, one behind the other. -/
theorem starts_of_tokenize {source : String} {file? : Option String} {tokens : List Token}
    (h : tokenize source file? = .ok tokens) :
    (∀ token ∈ tokens, IsBoundary source token.span.start.offset)
      ∧ tokens.Pairwise fun a b => a.span.start.offset < b.span.start.offset := by
  obtain ⟨hsize, hresults⟩ := results_of_tokenize h
  have hplace := remainder?_start source file?
  have haligned := aligned_after source file? hsize [] ((isBoundary_pos_iff rfl).mpr ⟨_, hplace⟩)
  constructor
  · intro token htoken
    have hmem : .ok token ∈ ((start source file?).sweepText Rule.table source.toList).results := by
      rw [hresults]
      exact List.mem_map_of_mem htoken
    exact (haligned.results hplace hmem).1
  · have hopen : (start source file?).size ≤ maxOffset := hsize
    have hrise := (@offsets_increase Rule.table (start source file?) _ hopen hplace).2
    rw [hresults, List.pairwise_map] at hrise
    exact hrise

end Session

namespace Location

/-- **Lines and columns are addresses.** Each boundary of a source has a location that leads back to
it, and of two boundaries the one in front has the location before. So the tokens of a source that
is read without a mistake begin at locations of which each comes before the next, and no two of them
begin on one line at one column. -/
theorem locations_are_addresses (source : String) :
    (∀ p, IsBoundary source p →
        ∃ location, find? source.toList p = some location ∧ location.LeadsTo source.toList p)
      ∧ (∀ p q, IsBoundary source p → IsBoundary source q → p < q →
        ∃ a b, find? source.toList p = some a ∧ find? source.toList q = some b ∧ a.Before b)
      ∧ ∀ file? tokens, tokenize source file? = .ok tokens →
        (∀ token ∈ tokens, ∃ location,
            find? source.toList token.span.start.offset = some location)
          ∧ tokens.Pairwise fun first second => ∃ a b,
            find? source.toList first.span.start.offset = some a
              ∧ find? source.toList second.span.start.offset = some b
              ∧ a.Before b ∧ (a.line, a.column) ≠ (b.line, b.column) := by
  refine ⟨fun p hp => leadsTo_of_isBoundary hp, fun p q hp hq hlt => before_of_lt hp hq hlt, ?_⟩
  intro file? tokens htokens
  obtain ⟨hboundaries, hrise⟩ := Session.starts_of_tokenize htokens
  constructor
  · intro token htoken
    obtain ⟨location, hfind, -⟩ := leadsTo_of_isBoundary (hboundaries token htoken)
    exact ⟨location, hfind⟩
  · refine hrise.imp_of_mem ?_
    intro first second hfirst hsecond hlt
    obtain ⟨a, b, ha, hb, hbefore⟩ :=
      before_of_lt (hboundaries first hfirst) (hboundaries second hsecond) hlt
    exact ⟨a, b, ha, hb, hbefore, hbefore.ne⟩

/-- A place behind an accented letter, the two sides of a newline, and a word and a string. -/
theorem locations_are_addresses_accent :
    (⟨2, "\"é\"".toList, 2⟩ : Location).LeadsTo "a\n\"é\"".toList 5
      ∧ (⟨1, "a\n".toList, 1⟩ : Location).Before ⟨2, "\"é\"".toList, 0⟩
      ∧ tokenize "a\n\"é\"" none = .ok
        [⟨.identifier, "a", ⟨⟨0, "shell"⟩, ⟨1, "shell"⟩⟩⟩,
          ⟨.string, "é", ⟨⟨2, "shell"⟩, ⟨6, "shell"⟩⟩⟩, ⟨.eof, "", ⟨⟨6, "shell"⟩, ⟨6, "shell"⟩⟩⟩]
      ∧ ∃ a b, find? "a\n\"é\"".toList 0 = some a ∧ find? "a\n\"é\"".toList 2 = some b
        ∧ a.Before b ∧ (a.line, a.column) ≠ (b.line, b.column) := by
  have htokens : tokenize "a\n\"é\"" none = .ok
      [⟨.identifier, "a", ⟨⟨0, "shell"⟩, ⟨1, "shell"⟩⟩⟩,
        ⟨.string, "é", ⟨⟨2, "shell"⟩, ⟨6, "shell"⟩⟩⟩,
        ⟨.eof, "", ⟨⟨6, "shell"⟩, ⟨6, "shell"⟩⟩⟩] := by decide +kernel
  obtain ⟨hleads, hbefore, hrise⟩ := locations_are_addresses "a\n\"é\""
  obtain ⟨inside, hinside, hleads⟩ := hleads 5 (by decide +kernel)
  obtain ⟨a, b, ha, hb, hbefore⟩ :=
    hbefore 1 2 (by decide +kernel) (by decide +kernel) (by decide)
  have hfinds : find? "a\n\"é\"".toList 5 = some ⟨2, "\"é\"".toList, 2⟩
      ∧ find? "a\n\"é\"".toList 1 = some ⟨1, "a\n".toList, 1⟩
      ∧ find? "a\n\"é\"".toList 2 = some ⟨2, "\"é\"".toList, 0⟩ := by decide +kernel
  obtain rfl := Option.some.inj (hinside.symm.trans hfinds.1)
  obtain rfl := Option.some.inj (ha.symm.trans hfinds.2.1)
  obtain rfl := Option.some.inj (hb.symm.trans hfinds.2.2)
  obtain ⟨-, hpairs⟩ := hrise none _ htokens
  exact ⟨hleads, hbefore, htokens, List.rel_of_pairwise_cons hpairs (List.mem_cons_self ..)⟩

end Location

end ScriptFront
