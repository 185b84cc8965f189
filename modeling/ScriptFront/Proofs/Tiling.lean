import ScriptFront.Proofs.Stream

/-!
# Nothing is read twice and nothing is lost

A session that records what it skips has, at any time in a run, handed out a tiling of the part
of the source it has read: the spans of its tokens and the recorded spans, put in order, follow
one another from offset zero to the cursor without gap or overlap.

The invariant behind this is `Covered`. It keeps the lexemes themselves, in the order in which they
were read, and says that the spans handed out are a rearrangement of the spans of these lexemes.
A step adds the lexemes it skips and the lexeme of its token at the end (`Covered.settle`), and
the places where the spans go, behind the tokens or among the recorded ones, make no difference to
a rearrangement. That the order of starting offsets undoes the rearrangement is a fact about
tilings alone (`Span.inOrder_eq_of_perm`).
-/

namespace ScriptFront

variable {rules : List Rule}

/-! ## Tilings -/

/-- A text is sliced at the widths of its parts. -/
theorem Text.slice?_append (front part back : List Char) :
    slice? (width front) (width front + width part) (front ++ (part ++ back)) = some part := by
  unfold slice?
  rw [if_pos (Nat.le_add_right _ _), splitAtByte?_width_append, Option.bind_some]
  show (splitAtByte? (width front + width part - width front) (part ++ back)).map _ = _
  rw [Nat.add_sub_cancel_left, splitAtByte?_width_append]
  rfl

namespace Span

/-- The spans cover the bytes of a file from `start` to `stop`: the first begins at `start`, each
is not empty, the next begins where it ends, and the last ends at `stop`. -/
def Tiles (file : String) : Nat → Nat → List Span → Prop
  | start, stop, [] => start = stop
  | start, stop, span :: spans =>
      span.start = ⟨start, file⟩ ∧ span.stop.file = file ∧ start < span.stop.offset
        ∧ Tiles file span.stop.offset stop spans

/-- Spans in the order in which they begin. -/
def inOrder (spans : List Span) : List Span :=
  spans.mergeSort fun a b => decide (a.start.offset ≤ b.start.offset)

/-- The texts of some spans, if each of them has one. -/
def slices? (spans : List Span) (text : List Char) : Option (List (List Char)) :=
  spans.mapM fun span => span.slice? text

/-- Every span of a tiling is not empty and begins at or behind its start. -/
theorem Tiles.bounds {file : String} {start stop : Nat} {spans : List Span}
    (h : Tiles file start stop spans) :
    ∀ span ∈ spans, start ≤ span.start.offset ∧ span.start.offset < span.stop.offset := by
  induction spans generalizing start with
  | nil => intro span hmem; exact absurd hmem (by simp)
  | cons first spans ih =>
      obtain ⟨hstart, -, hlt, hrest⟩ := h
      intro span hmem
      rcases List.mem_cons.mp hmem with rfl | hmem
      · rw [hstart]
        exact ⟨Nat.le_refl _, hlt⟩
      · obtain ⟨hle, hspan⟩ := ih hrest span hmem
        exact ⟨by omega, hspan⟩

/-- The spans of a tiling do not overlap. -/
theorem Tiles.disjoint {file : String} {start stop : Nat} {spans : List Span}
    (h : Tiles file start stop spans) :
    spans.Pairwise fun a b => a.stop.offset ≤ b.start.offset := by
  induction spans generalizing start with
  | nil => exact List.Pairwise.nil
  | cons first spans ih =>
      obtain ⟨-, -, -, hrest⟩ := h
      exact List.Pairwise.cons (fun span hmem => (hrest.bounds span hmem).1) (ih hrest)

/-- No two spans of a tiling begin at one offset. -/
theorem Tiles.eq_of_start_eq {file : String} {start stop : Nat} {spans : List Span}
    (h : Tiles file start stop spans) {a b : Span} (ha : a ∈ spans) (hb : b ∈ spans)
    (hstart : a.start.offset = b.start.offset) : a = b := by
  induction spans generalizing start with
  | nil => exact absurd ha (by simp)
  | cons first spans ih =>
      obtain ⟨hfirst, -, hlt, hrest⟩ := h
      have hoffset : first.start.offset = start := by rw [hfirst]
      rcases List.mem_cons.mp ha with rfl | ha' <;> rcases List.mem_cons.mp hb with rfl | hb'
      · rfl
      · have := (hrest.bounds b hb').1
        omega
      · have := (hrest.bounds a ha').1
        omega
      · exact ih hrest ha' hb'

/-- **The spans of a tiling, in whatever order they come, are put right by where they begin.** -/
theorem inOrder_eq_of_perm {file : String} {start stop : Nat} {spans tiling : List Span}
    (hperm : spans.Perm tiling) (h : Tiles file start stop tiling) : inOrder spans = tiling := by
  -- two sorted lists with the same members are equal if the order tells all members apart
  have hsame : (inOrder spans).Perm tiling := (List.mergeSort_perm _ _).trans hperm
  have hsorted : (inOrder spans).Pairwise fun a b => decide (a.start.offset ≤ b.start.offset) := by
    refine List.pairwise_mergeSort ?_ ?_ spans
    · intro a b c hab hbc
      simp only [decide_eq_true_eq] at hab hbc ⊢
      omega
    · intro a b
      simp only [Bool.or_eq_true, decide_eq_true_eq]
      omega
  have htiling : tiling.Pairwise fun a b => decide (a.start.offset ≤ b.start.offset) := by
    refine List.Pairwise.imp_of_mem ?_ h.disjoint
    intro a b ha hb hab
    have := (h.bounds a ha).2
    simp only [decide_eq_true_eq]
    omega
  refine List.Perm.eq_of_pairwise ?_ hsorted htiling hsame
  intro a b ha hb hab hba
  simp only [decide_eq_true_eq] at hab hba
  exact h.eq_of_start_eq (hsame.mem_iff.mp ha) hb (by omega)

end Span

namespace Session

variable {s t : Session} {scan : Scan} {lexemes : List (List Char)} {spans : List Span}
  {back behind : List Char} {last : Except Error Token} {pending : List (Except Error Token)}

/-! ## The spans of lexemes -/

theorem spansFrom_append (s : Session) (offset : Nat) (as bs : List (List Char)) :
    s.spansFrom offset (as ++ bs) =
      s.spansFrom offset as ++ s.spansFrom (offset + Text.width as.flatten) bs := by
  induction as generalizing offset with
  | nil => rfl
  | cons a as ih =>
      simp only [List.cons_append, spansFrom, ih, List.flatten_cons, Text.width_append,
        Nat.add_assoc]

theorem spansFrom_congr (hfile : s.file = t.file) (offset : Nat) (lexemes : List (List Char)) :
    s.spansFrom offset lexemes = t.spansFrom offset lexemes := by
  induction lexemes generalizing offset with
  | nil => rfl
  | cons lexeme lexemes ih => simp only [spansFrom, span, positionAt, hfile, ih]

/-- **The spans of lexemes that follow one another are a tiling**, as long as none is empty and
positions can count them all. -/
theorem tiles_spansFrom {offset : Nat} (hne : ∀ lexeme ∈ lexemes, lexeme ≠ [])
    (hmax : offset + Text.width lexemes.flatten ≤ maxOffset) :
    Span.Tiles s.file offset (offset + Text.width lexemes.flatten)
      (s.spansFrom offset lexemes) := by
  induction lexemes generalizing offset with
  | nil => rfl
  | cons lexeme lexemes ih =>
      rw [List.flatten_cons, Text.width_append] at hmax ⊢
      have hpos := Text.width_pos (hne lexeme (by simp))
      have hrest := @ih (offset + Text.width lexeme)
        (fun l hl => hne l (List.mem_cons_of_mem _ hl)) (by omega)
      rw [Nat.add_assoc] at hrest
      simp only [spansFrom, span, positionAt_of_le (by omega : offset ≤ maxOffset),
        positionAt_of_le (by omega : offset + Text.width lexeme ≤ maxOffset)]
      exact ⟨rfl, rfl, by simp only; omega, hrest⟩

/-- The text of each of these spans is its lexeme. -/
theorem slices_spansFrom {front unread : List Char}
    (hmax : Text.width front + Text.width lexemes.flatten ≤ maxOffset) :
    Span.slices? (s.spansFrom (Text.width front) lexemes)
        (front ++ (lexemes.flatten ++ unread)) = some lexemes := by
  induction lexemes generalizing front with
  | nil => rfl
  | cons lexeme lexemes ih =>
      rw [List.flatten_cons, Text.width_append] at hmax
      have hrest := @ih (front ++ lexeme) (by rw [Text.width_append]; omega)
      simp only [Text.width_append, List.append_assoc] at hrest
      have hfirst : (s.span (Text.width front) (Text.width front + Text.width lexeme)).slice?
          (front ++ (lexeme ++ (lexemes.flatten ++ unread))) = some lexeme := by
        unfold span
        rw [positionAt_of_le (by omega), positionAt_of_le (by omega)]
        exact Text.slice?_append front lexeme _
      rw [spansFrom, Span.slices?, List.mapM_cons, List.flatten_cons, List.append_assoc, hfirst]
      rw [Span.slices?] at hrest
      rw [hrest]
      rfl

/-! ## What has been handed out -/

/-- The source up to the cursor is made of lexemes, and their spans are these and the recorded
ones, in some order. -/
structure Covered (s : Session) (spans : List Span) : Prop where
  exists_lexemes : ∃ (lexemes : List (List Char)) (unread : List Char) (recorded : List Span),
    s.text = lexemes.flatten ++ unread ∧ Text.width lexemes.flatten = s.pos
      ∧ (∀ lexeme ∈ lexemes, lexeme ≠ [])
      ∧ s.recorded? = some recorded
      ∧ (spans ++ recorded).Perm (s.spansFrom 0 lexemes)

/-- At the start nothing has been handed out. -/
theorem covered_start (source : String) (file? : Option String) :
    Covered (start source file?).recordTrivia [] :=
  ⟨[], source.toList, [], rfl, rfl, by simp, rfl, List.Perm.refl []⟩

/-- Where the spans handed out cover the source, the cursor is at a place. -/
theorem Covered.place (h : Covered s spans) : ∃ back, s.remainder? = some back := by
  obtain ⟨lexemes, unread, recorded, htext, hwidth, -⟩ := h
  exact ⟨unread, remainder?_eq_some_iff.mpr ⟨lexemes.flatten, htext, hwidth⟩⟩

/-- The span of a token that is not the one for the end. -/
def lexemeSpan? : Except Error Token → Option Span
  | .ok token => if token.kind = .eof then none else some token.span
  | .error _ => none

/-- The lexemes that a step reads: those it skips, and that of its token. -/
def stepLexemes (scan : Scan) : List (List Char) :=
  match scan.finding with
  | .token _ _ lexeme _ => scan.skipped ++ [lexeme]
  | .eof => scan.skipped
  | .mistake _ => scan.skipped

/-- **What a step hands out and records are the spans of the lexemes it reads.** -/
theorem spansFrom_stepLexemes (s : Session) (hreads : Scan.Reads rules back scan behind) :
    s.spansFrom s.pos (stepLexemes scan) =
      s.spansFrom s.pos scan.skipped ++ (lexemeSpan? (s.settle scan).1).toList
    ∧ (s.settle scan).2.pos = s.pos + Text.width (stepLexemes scan).flatten := by
  unfold stepLexemes
  cases hf : scan.finding with
  | eof =>
      rw [settle_of_eof hf]
      exact ⟨by simp [lexemeSpan?], rfl⟩
  | mistake cause =>
      rw [settle_of_mistake hf]
      exact ⟨by simp [lexemeSpan?], rfl⟩
  | token kind value lexeme rest =>
      rw [settle_of_token hf]
      have hkind := (hreads.token_append hf).2.2
      refine ⟨?_, ?_⟩
      · rw [spansFrom_append]
        simp only [lexemeSpan?, if_neg hkind]
        rfl
      · simp only [found, Scan.lead, List.flatten_append, List.flatten_singleton,
          Text.width_append]
        omega

/-- The lexemes that a step reads make up the text from where it is made to what is left. -/
theorem stepLexemes_append (hreads : Scan.Reads rules back scan behind) :
    back = (stepLexemes scan).flatten ++ scan.left behind
      ∧ ∀ lexeme ∈ stepLexemes scan, lexeme ≠ [] := by
  have happend := hreads.append.symm
  unfold stepLexemes Scan.left Scan.rest?
  cases hf : scan.finding with
  | eof => exact ⟨happend, hreads.nonempty⟩
  | mistake cause => exact ⟨happend, hreads.nonempty⟩
  | token kind value lexeme rest =>
      obtain ⟨hbehind, hne, -⟩ := hreads.token_append hf
      refine ⟨?_, ?_⟩
      · rw [happend, hbehind]
        simp [Scan.lead]
      · intro l hl
        rcases List.mem_append.mp hl with hl | hl
        · exact hreads.nonempty l hl
        · rw [List.mem_singleton.mp hl]
          exact hne

/-- **A step keeps the source covered**, its own token included. -/
theorem Covered.settle (h : Covered s spans) (hplace : s.remainder? = some back)
    (hreads : Scan.Reads rules back scan behind) :
    Covered (s.settle scan).2 (spans ++ (lexemeSpan? (s.settle scan).1).toList) := by
  obtain ⟨lexemes, unread, recorded, htext, hwidth, hne, hrecorded, hperm⟩ := h
  obtain ⟨hspans, hpos⟩ := spansFrom_stepLexemes s hreads
  obtain ⟨hback, hne'⟩ := stepLexemes_append hreads
  -- the cursor has one text behind it, so what is not covered yet is what the scan read
  have hunread : s.remainder? = some unread :=
    remainder?_eq_some_iff.mpr ⟨lexemes.flatten, htext, hwidth⟩
  rw [hplace] at hunread
  injection hunread with hunread
  refine ⟨lexemes ++ stepLexemes scan, scan.left behind,
    recorded ++ s.spansFrom s.pos scan.skipped, ?_, ?_, ?_, ?_, ?_⟩
  · rw [settle_text, htext, ← hunread, hback, List.flatten_append, List.append_assoc]
  · rw [hpos, List.flatten_append, Text.width_append, hwidth]
  · intro l hl
    rcases List.mem_append.mp hl with hl | hl
    · exact hne l hl
    · exact hne' l hl
  · rw [settle_recorded?, recordedAfter, hrecorded]
    rfl
  · rw [spansFrom_congr (settle_file s scan), spansFrom_append, Nat.zero_add, hwidth, hspans]
    -- the token goes behind the tokens, and what is skipped behind what is recorded
    refine List.Perm.trans ?_ (hperm.append_right _)
    rw [List.append_assoc, List.append_assoc]
    refine List.Perm.append_left spans ?_
    rw [← List.append_assoc recorded]
    exact List.perm_append_comm

/-! ## Runs of calls for tokens -/

/-- The spans of the tokens among some replies, the one for the end apart. -/
def tokenSpans : List Reply → List Span
  | [] => []
  | .token token :: replies => (lexemeSpan? (.ok token)).toList ++ tokenSpans replies
  | _ :: replies => tokenSpans replies

theorem tokenSpans_ofResult (result : Except Error Token) (replies : List Reply) :
    tokenSpans (.ofResult result :: replies) =
      (lexemeSpan? result).toList ++ tokenSpans replies := by
  cases result <;> rfl

/-- A call for a token, made at a place, is answered by a step from there, or by nothing once the
session is done with. -/
theorem answer_of_pulls (hsize : s.size ≤ maxOffset) (hplace : s.remainder? = some back)
    {call : Call} (hpull : call.pulls = true) :
    s.answer rules call =
        (.ofResult (s.settle (Scan.of rules back)).1, (s.settle (Scan.of rules back)).2)
      ∨ s.answer rules call = (.exhausted, s) := by
  cases call with
  | nextToken =>
      refine Or.inl ?_
      unfold answer
      rw [nextToken?_eq hsize hplace]
  | next =>
      unfold answer
      cases hfinished : s.finished with
      | false =>
          rw [next?_eq hsize hplace hfinished]
          exact Or.inl rfl
      | true =>
          rw [next?_of_finished hfinished]
          exact Or.inr rfl
  | _ => exact absurd hpull (by simp [Call.pulls])

/-- **A run of calls for tokens keeps the source covered.** -/
theorem Covered.run {calls : List Call} (hsize : s.size ≤ maxOffset) (h : Covered s spans)
    (hpulls : ∀ call ∈ calls, call.pulls = true) :
    Covered (s.after rules calls) (spans ++ tokenSpans ((s.run rules calls).map (·.1))) := by
  induction calls generalizing s spans with
  | nil => simpa [tokenSpans] using h
  | cons call calls ih =>
      obtain ⟨back, hplace⟩ := h.place
      obtain ⟨behind, hreads⟩ := Scan.of_reads rules back
      have hpulls' : ∀ c ∈ calls, c.pulls = true :=
        fun c hc => hpulls c (List.mem_cons_of_mem _ hc)
      rw [after_cons, run_cons, List.map_cons]
      -- a call is a step or it is refused, and a refusal hands out nothing
      rcases answer_of_pulls hsize hplace (hpulls call (by simp)) with hanswer | hanswer
      · have hsize' : (s.settle (Scan.of rules back)).2.size ≤ maxOffset := by
          rw [settle_size]
          exact hsize
        rw [hanswer, tokenSpans_ofResult, ← List.append_assoc]
        exact ih hsize' (h.settle hplace hreads) hpulls'
      · rw [hanswer]
        exact ih hsize h hpulls'

/-- The offset behind a result: where its token ends, or where its mistake was made. -/
def endOf : Except Error Token → Nat
  | .ok token => token.span.stop.offset
  | .error error => error.position.offset

/-- **A step leaves the cursor behind its result.** -/
theorem settle_pos (hsize : s.size ≤ maxOffset) (hplace : s.remainder? = some back)
    (hreads : Scan.Reads rules back scan behind) :
    (s.settle scan).2.pos = endOf (s.settle scan).1 := by
  have hfound := found_add_width hplace hreads
  cases hf : scan.finding with
  | eof => rw [settle_of_eof hf, endOf, span, positionAt_of_le (by omega)]
  | mistake cause => rw [settle_of_mistake hf, endOf, positionAt_of_le (by omega)]
  | token kind value lexeme rest =>
      rw [(hreads.token_append hf).1, Text.width_append] at hfound
      rw [settle_of_token hf, endOf, span,
        positionAt_of_le (by omega : s.found scan + Text.width lexeme ≤ maxOffset)]

/-- So does a call for a token. -/
theorem answer_pos (hsize : s.size ≤ maxOffset) (hplace : s.remainder? = some back) {call : Call}
    (hpull : call.pulls = true) :
    (∀ token, (s.answer rules call).1 = .token token →
        (s.answer rules call).2.pos = token.span.stop.offset)
      ∧ ∀ error, (s.answer rules call).1 = .error error →
        (s.answer rules call).2.pos = error.position.offset := by
  obtain ⟨behind, hreads⟩ := Scan.of_reads rules back
  have hpos := settle_pos hsize hplace hreads
  rcases answer_of_pulls hsize hplace hpull with hanswer | hanswer
  · rw [hanswer]
    cases hresult : (s.settle (Scan.of rules back)).1 with
    | ok token =>
        rw [hresult] at hpos
        refine ⟨?_, by simp [Reply.ofResult]⟩
        intro t ht
        injection ht with ht
        rw [← ht]
        exact hpos
    | error error =>
        rw [hresult] at hpos
        refine ⟨by simp [Reply.ofResult], ?_⟩
        intro e he
        injection he with he
        rw [← he]
        exact hpos
  · rw [hanswer]
    exact ⟨by simp, by simp⟩

/-- **In a run of calls for tokens, each step leaves the cursor behind its result.** -/
theorem run_pos {calls : List Call} (hsize : s.size ≤ maxOffset) (h : Covered s spans)
    (hpulls : ∀ call ∈ calls, call.pulls = true) :
    ∀ step ∈ s.run rules calls,
      (∀ token, step.1 = .token token → step.2.pos = token.span.stop.offset)
        ∧ ∀ error, step.1 = .error error → step.2.pos = error.position.offset := by
  intro step hstep
  -- each step is made by the session that the calls before it have led to
  obtain ⟨before, call, later, rfl, rfl⟩ := mem_run_iff.mp hstep
  have hbefore : ∀ c ∈ before, c.pulls = true := fun c hc => hpulls c (by simp [hc])
  obtain ⟨back, hplace⟩ := (@Covered.run rules _ _ _ hsize h hbefore).place
  exact answer_pos (by rw [after_size]; exact hsize) hplace (hpulls call (by simp))

/-- The offset at which a result is: where its token begins or its mistake was made. -/
def offsetOf : Except Error Token → Nat
  | .ok token => token.span.start.offset
  | .error error => error.position.offset

/-- A result is where the scan made its finding. -/
theorem settle_offset (h : s.found scan ≤ maxOffset) :
    offsetOf (s.settle scan).1 = s.found scan := by
  cases hf : scan.finding with
  | eof => rw [settle_of_eof hf, offsetOf, span, positionAt_of_le h]
  | mistake cause => rw [settle_of_mistake hf, offsetOf, positionAt_of_le h]
  | token kind value lexeme rest => rw [settle_of_token hf, offsetOf, span, positionAt_of_le h]

/-- **The results of a sweep stand in rising order**, and none before the cursor. -/
theorem offsets_increase (hsize : s.size ≤ maxOffset) (hplace : s.remainder? = some back) :
    (∀ result ∈ (s.sweepText rules back).results, s.pos ≤ offsetOf result)
      ∧ (s.sweepText rules back).results.Pairwise fun a b => offsetOf a < offsetOf b := by
  induction back using Scan.token_induction rules generalizing s with
  | last cs hrest =>
      obtain ⟨behind, hreads⟩ := Scan.of_reads rules cs
      have hfound := found_add_width hplace hreads
      have hoffset := @settle_offset s (Scan.of rules cs) (by omega)
      have hstart : s.pos ≤ s.found (Scan.of rules cs) := Nat.le_add_right _ _
      rw [(sweepText_of_rest?_none hrest).1]
      refine ⟨?_, List.pairwise_singleton _ _⟩
      intro result hresult
      rw [List.mem_singleton.mp hresult]
      omega
  | token cs rest hrest ih =>
      obtain ⟨behind, hreads⟩ := Scan.of_reads rules cs
      obtain ⟨kind, value, lexeme, hf⟩ := Scan.rest?_eq_some_iff.mp hrest
      obtain ⟨-, hne, -⟩ := hreads.token_append hf
      have hfound := found_add_width hplace hreads
      have hoffset := @settle_offset s (Scan.of rules cs) (by omega)
      have hplace' := remainder?_settle hplace hreads
      rw [Scan.left, hrest] at hplace'
      obtain ⟨hle, hpairwise⟩ := ih (by rw [settle_size]; exact hsize) hplace'
      rw [(sweepText_of_rest?_some hrest).1]
      -- the token begins behind the cursor, and the next step is made behind the token
      have hstart : s.pos ≤ s.found (Scan.of rules cs) := Nat.le_add_right _ _
      have hnext : (s.settle (Scan.of rules cs)).2.pos =
          s.found (Scan.of rules cs) + Text.width lexeme := by
        rw [settle_of_token hf]
      have hpos := Text.width_pos hne
      refine ⟨?_, List.Pairwise.cons ?_ hpairwise⟩
      · intro result hresult
        rcases List.mem_cons.mp hresult with rfl | hresult
        · omega
        · have := hle result hresult
          omega
      · intro result hresult
        have := hle result hresult
        omega

/-- **What the spans of a covered source look like**: put in order they are a tiling of what has
been read, and their texts make it up. -/
theorem Covered.tiles (h : Covered s spans) (hsize : s.size ≤ maxOffset) :
    Span.Tiles s.file 0 s.pos (Span.inOrder (spans ++ s.trivia))
      ∧ ∃ read unread, s.text = read ++ unread ∧ Text.width read = s.pos
        ∧ (Span.slices? (Span.inOrder (spans ++ s.trivia)) s.text).map List.flatten =
            some read := by
  obtain ⟨back, hplace⟩ := h.place
  have hsum := pos_add_width hplace
  obtain ⟨lexemes, unread, recorded, htext, hwidth, hne, hrecorded, hperm⟩ := h
  have hmax : 0 + Text.width lexemes.flatten ≤ maxOffset := by omega
  have htiles := @tiles_spansFrom s lexemes 0 hne hmax
  have hslices := @slices_spansFrom s lexemes [] unread hmax
  rw [Nat.zero_add, hwidth] at htiles
  rw [trivia, hrecorded, Option.getD_some, Span.inOrder_eq_of_perm hperm htiles]
  refine ⟨htiles, lexemes.flatten, unread, htext, hwidth, ?_⟩
  rw [htext]
  exact congrArg (Option.map List.flatten) hslices

/-- The part of a run that comes to the end of its source: the tokens, the end, and then what each
further call is answered. -/
theorem replies_eq_of_eof_mem {calls : List Call} {tokens : List Token} {eof : Token}
    (hsize : s.size ≤ maxOffset) (h : Reading rules last (tokens.map .ok ++ [last]) s)
    (hkinds : ∀ token ∈ tokens, token.kind ≠ .eof) (hpulls : ∀ call ∈ calls, call.pulls = true)
    (hmem : .token eof ∈ (s.run rules calls).map (·.1)) (heof : eof.kind = .eof) :
    last = .ok eof ∧ tokens.length < calls.length
      ∧ (s.run rules calls).map (·.1) =
        tokens.map .token ++ .token eof ::
          (calls.drop (tokens.length + 1)).map (replyAtEnd (.ok eof)) := by
  have hreplies := h.run_replies hsize hpulls
  have hlength : (tokens.map Except.ok ++ [last]).length = tokens.length + 1 := by simp
  rw [hlength] at hreplies
  -- a token for the end is no token of the stream, so it is its last result
  have hlast : last = .ok eof ∧ tokens.length < calls.length := by
    rw [hreplies] at hmem
    rcases List.mem_append.mp hmem with hmem | hmem
    · obtain ⟨result, hresult, hreply⟩ := List.mem_map.mp hmem
      have hok : result = .ok eof := by
        cases result with
        | error error => exact absurd hreply (by simp [Reply.ofResult])
        | ok token =>
            injection hreply with hreply
            rw [hreply]
      rcases Nat.lt_or_ge tokens.length calls.length with hlt | hge
      · rw [List.take_of_length_le (by rw [hlength]; omega), hok] at hresult
        rcases List.mem_append.mp hresult with hresult | hresult
        · obtain ⟨token, htoken, heq⟩ := List.mem_map.mp hresult
          injection heq with heq
          exact absurd heof (by rw [← heq]; exact hkinds token htoken)
        · exact ⟨(List.mem_singleton.mp hresult).symm, hlt⟩
      · rw [List.take_append_of_le_length (by simpa using hge), hok] at hresult
        obtain ⟨token, htoken, heq⟩ := List.mem_map.mp (List.mem_of_mem_take hresult)
        injection heq with heq
        exact absurd heof (by rw [← heq]; exact hkinds token htoken)
    · obtain ⟨call, hcall, hreply⟩ := List.mem_map.mp hmem
      have hlt : tokens.length + 1 < calls.length := by
        have := List.length_pos_of_mem hcall
        rw [List.length_drop] at this
        omega
      unfold replyAtEnd at hreply
      split at hreply
      · exact absurd hreply (by simp)
      · cases last with
        | error error => exact absurd hreply (by simp [Reply.ofResult])
        | ok token =>
            injection hreply with hreply
            exact ⟨by rw [hreply], by omega⟩
  obtain ⟨rfl, hlt⟩ := hlast
  refine ⟨rfl, hlt, ?_⟩
  rw [hreplies, List.take_of_length_le (by rw [hlength]; omega)]
  simp [Reply.ofResult, Function.comp_def]

/-- Whoever only asks for the next item gets the end once. -/
theorem count_eof {tokens : List Token} {eof : Token} {calls : List Call}
    (hkinds : ∀ token ∈ tokens, token.kind ≠ .eof) (heof : eof.kind = .eof)
    (hnext : ∀ call ∈ calls, call = .next) :
    (tokens.map Reply.token ++ Reply.token eof :: calls.map (replyAtEnd (.ok eof))).count
      (.token eof) = 1 := by
  have hbefore : (tokens.map Reply.token).count (.token eof) = 0 := by
    refine List.count_eq_zero.mpr fun hmem => ?_
    obtain ⟨token, htoken, heq⟩ := List.mem_map.mp hmem
    injection heq with heq
    rw [← heq] at heof
    exact hkinds token htoken heof
  have hbehind : (calls.map (replyAtEnd (.ok eof))).count (.token eof) = 0 := by
    refine List.count_eq_zero.mpr fun hmem => ?_
    obtain ⟨call, hcall, heq⟩ := List.mem_map.mp hmem
    rw [replyAtEnd, if_pos (hnext call hcall)] at heq
    exact absurd heq (by simp)
  rw [List.count_append, hbefore, List.count_cons_self, hbehind]

/-- **The pieces of a run tile the source.** Take a fresh session that records what it skips, and
any series of calls for tokens. The spans of the tokens it has returned and of what it has skipped,
put in order, cover the source up to the cursor without gap or overlap, none of them empty, and
their texts make up that part of the source. Each token leaves the cursor at its end and each
mistake where it was made. If the end of the source is returned, it is returned once, behind all
other tokens: the cursor is at the end, the token for it is empty and stands there, the tokens begin
at rising offsets, and each further call for the next item has nothing to give. -/
theorem run_tiles_source (source : String) (file? : Option String) (calls : List Call)
    (hsize : Text.width source.toList ≤ maxOffset)
    (hpulls : ∀ call ∈ calls, call.pulls = true) :
    let file := file?.getD unnamed
    let size := Text.width source.toList
    let steps := (start source file?).recordTrivia.run Rule.table calls
    let stop := (start source file?).recordTrivia.after Rule.table calls
    let pieces := Span.inOrder (tokenSpans (steps.map (·.1)) ++ stop.trivia)
    (Span.Tiles file 0 stop.pos pieces
        ∧ pieces.Pairwise (fun a b => a.stop.offset ≤ b.start.offset)
        ∧ ∃ read unread, source.toList = read ++ unread ∧ Text.width read = stop.pos
          ∧ (Span.slices? pieces source.toList).map List.flatten = some read)
      ∧ (∀ step ∈ steps,
          (∀ token, step.1 = .token token → step.2.pos = token.span.stop.offset)
            ∧ ∀ error, step.1 = .error error → step.2.pos = error.position.offset)
      ∧ ∀ eof, .token eof ∈ steps.map (·.1) → eof.kind = .eof →
          stop.pos = size ∧ eof = ⟨.eof, "", ⟨⟨size, file⟩, ⟨size, file⟩⟩⟩
            ∧ ∃ tokens : List Token,
              steps.map (·.1) =
                  tokens.map .token ++ .token eof ::
                    (calls.drop (tokens.length + 1)).map
                      (fun call => if call = .next then .exhausted else .token eof)
                ∧ (∀ token ∈ tokens, token.kind ≠ .eof)
                ∧ (tokens ++ [eof]).Pairwise
                    (fun a b => a.span.start.offset < b.span.start.offset)
                ∧ ((∀ call ∈ calls, call = .next) →
                    (steps.map (·.1)).count (.token eof) = 1) := by
  intro file size steps stop pieces
  obtain ⟨tokens, last, hresults, hlast, hkinds⟩ :=
    exists_results Rule.table (start source file?) source.toList
  have hreading := (reading_start Rule.table source file? hresults).recordTrivia
  have hopen : (start source file?).recordTrivia.size ≤ maxOffset := hsize
  have hcovered := @Covered.run Rule.table _ _ _ hopen (covered_start source file?) hpulls
  have hsource := after_source Rule.table (start source file?).recordTrivia calls
  have htext : stop.text = source.toList := hsource.1
  have hfile : stop.file = file := hsource.2
  have hstop : stop.size ≤ maxOffset := by rw [Session.size, htext]; exact hsize
  obtain ⟨htiles, hread⟩ := hcovered.tiles hstop
  refine ⟨⟨?_, htiles.disjoint, ?_⟩, ?_, ?_⟩
  · rw [← hfile]
    exact htiles
  · rw [← htext]
    exact hread
  · exact run_pos hopen (covered_start source file?) hpulls
  · -- once the end is returned the stream is used up, so the session stands at the end
    intro eof hmem heof
    obtain ⟨rfl, hlt, hreplies⟩ := replies_eq_of_eof_mem hopen hreading hkinds hpulls hmem heof
    have hdone := hreading.after hopen (fun c hc => Call.jumps_of_pulls (hpulls c hc))
    rw [pendingAfter_eq_nil hpulls (by simp; omega)] at hdone
    obtain ⟨hpos, heq⟩ := hdone.eof_eq hstop
    have hsize_eq : stop.size = size := by rw [Session.size, htext]
    rw [hsize_eq] at hpos
    refine ⟨hpos, ?_, tokens, hreplies, hkinds, ?_, ?_⟩
    · rw [heq, ← hfile, ← hsize_eq]
    · have hrise := (@offsets_increase Rule.table (start source file?) source.toList hsize
        (remainder?_start source file?)).2
      rw [hresults, ← List.map_singleton, ← List.map_append, List.pairwise_map] at hrise
      exact hrise
    · intro hnext
      rw [hreplies]
      exact count_eof hkinds heof fun call hcall => hnext call (List.mem_of_mem_drop hcall)

/-- A run over a word, a comment and a string, up to the end and past it. -/
theorem run_tiles_source_string :
    Text.width "a //b\n\"é\"".toList ≤ maxOffset
      ∧ (∀ call ∈ [Call.next, .nextToken, .next, .next], call.pulls = true)
      ∧ .token ⟨.eof, "", ⟨⟨10, "shell"⟩, ⟨10, "shell"⟩⟩⟩ ∈
        ((start "a //b\n\"é\"" none).recordTrivia.run Rule.table
          [.next, .nextToken, .next, .next]).map (·.1)
      ∧ ((start "a //b\n\"é\"" none).recordTrivia.after Rule.table
          [.next, .nextToken, .next, .next]).pos = 10 := by
  have hsize : Text.width "a //b\n\"é\"".toList ≤ maxOffset := by decide
  have hpulls : ∀ call ∈ [Call.next, .nextToken, .next, .next], call.pulls = true := by decide
  have heof : Reply.token ⟨.eof, "", ⟨⟨10, "shell"⟩, ⟨10, "shell"⟩⟩⟩ ∈
      ((start "a //b\n\"é\"" none).recordTrivia.run Rule.table
        [.next, .nextToken, .next, .next]).map (·.1) := by decide +kernel
  obtain ⟨-, -, hend⟩ := run_tiles_source "a //b\n\"é\"" none _ hsize hpulls
  exact ⟨hsize, hpulls, heof, (hend _ heof rfl).1⟩

end Session

end ScriptFront
