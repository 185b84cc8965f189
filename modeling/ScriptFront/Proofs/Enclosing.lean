import Mathlib.Data.List.Forall2
import ScriptFront.Expr.Basic
import ScriptFront.Proofs.Addresses
import ScriptFront.Proofs.Neighbours

/-!
# What the spans of an expression enclose

A node keeps a span and nothing of the tokens below it, so whether the span is the right one cannot
be seen from the expression alone. A plan (`Plan`) has what is lost: the token of every leaf and of
every operator, and how they are put together. Every node of an expression belongs to a part of its
plan (`Plan.forall₂_of_build`).

That its span goes from the first leaf of this part to the last one needs nothing of the tokens
(`Plan.span_of_build`). What lies in between does. If the tokens were read from a source, and stand
in the plan as they do in the source, then each ends before the next one begins (`InOrder`), and the
same follows for the two sides of a node and its operator.
-/

namespace ScriptFront

/-! ## Spans side by side -/

namespace Span

/-- A span of a file that is not empty. -/
structure Proper (file : String) (span : Span) : Prop where
  start : span.start.file = file
  stop : span.stop.file = file
  lt : span.start.offset < span.stop.offset

/-- One span ends before another begins, or where it begins. -/
def Precedes (a b : Span) : Prop := a.stop.file = b.start.file ∧ a.stop.offset ≤ b.start.offset

/-- A span that is not empty lies in another. -/
def Inside (a b : Span) : Prop :=
  (a.start.file = b.start.file ∧ a.stop.file = b.stop.file)
    ∧ b.start.offset ≤ a.start.offset ∧ a.start.offset < a.stop.offset
    ∧ a.stop.offset ≤ b.stop.offset

variable {a b : Span} {file : String} {text first last rest back : List Char}

/-- The span of a lexeme is not empty. -/
theorem Marks.proper (h : a.Marks file text first rest) (hne : first ≠ []) : a.Proper file := by
  obtain ⟨front, -, rfl⟩ := h
  exact ⟨rfl, rfl, Nat.lt_add_of_pos_right (Text.width_pos hne)⟩

/-- **What is from the start of one lexeme to the end of another** is the one, what lies between
them, and the other. -/
theorem Marks.cover (ha : a.Marks file text first rest) (hb : b.Marks file text last back)
    (hle : a.stop.offset ≤ b.start.offset) :
    ∃ between, (a.cover b).Marks file text (first ++ between ++ last) back := by
  obtain ⟨front, htext, rfl⟩ := ha
  obtain ⟨front', htext', rfl⟩ := hb
  simp only at hle
  rw [← List.append_assoc] at htext
  rw [← Text.width_append] at hle
  obtain ⟨between, rfl⟩ := Text.isPrefix_of_width_le ⟨_, htext.symm⟩ ⟨_, htext'.symm⟩ hle
  refine ⟨between, front, ?_, ?_⟩
  · rw [htext']
    simp only [List.append_assoc]
  · simp only [Span.cover, Text.width_append, Nat.add_assoc]

end Span

/-! ## Tokens in order -/

/-- Tokens of a source in order. Each stands for the text of its span, and ends before the next one
begins. -/
structure InOrder (source file : String) (tokens : List Token) : Prop where
  marks : ∀ token ∈ tokens, ∃ lexeme rest,
    token.span.Marks file source.toList lexeme rest ∧ Written token.kind token.value lexeme
  ordered : tokens.Pairwise fun a b => a.span.stop.offset ≤ b.span.start.offset

/-- Some of them are in order as well. -/
theorem InOrder.sublist {source file : String} {tokens others : List Token}
    (h : InOrder source file tokens) (hsub : others.Sublist tokens) : InOrder source file others :=
  ⟨fun token htoken => h.marks token (hsub.subset htoken), h.ordered.sublist hsub⟩

namespace Session

variable {rules : List Rule} {s : Session} {back : List Char}

/-- **Each result of a sweep is where the one before it ends, or behind.** -/
theorem ends_before_starts (hsize : s.size ≤ maxOffset) (hplace : s.remainder? = some back) :
    (s.sweepText rules back).results.Pairwise fun a b => endOf a ≤ offsetOf b := by
  induction back using Scan.finding_induction rules generalizing s with
  | eof cs hf =>
      rw [results_of_eof hf]
      exact List.pairwise_singleton _ _
  | mistake cs cause hf =>
      rw [results_of_mistake hf]
      exact List.pairwise_singleton _ _
  | token cs kind value lexeme rest hf ih =>
      rw [← Scan.lead_append_token hf, ← List.append_assoc] at hplace
      have hsum := pos_add_width hplace
      simp only [Text.width_append] at hsum
      -- what comes later is read from behind the token
      obtain ⟨t, ht⟩ : ∃ t, t =
          s.advance (Text.width (Scan.of rules cs).lead + Text.width lexeme) := ⟨_, rfl⟩
      have hopen : t.size ≤ maxOffset := by
        rw [ht]
        exact hsize
      have hnext : t.remainder? = some rest := by
        rw [ht, ← Text.width_append]
        exact from?_ahead hplace
      rw [results_of_token hf, ← ht]
      refine List.Pairwise.cons ?_ (ih hopen hnext)
      intro result hresult
      have hle := (offsets_increase hopen hnext).1 result hresult
      rw [ht] at hle
      rw [endOf, span_of_le (Nat.le_add_right _ _) (by rw [found]; omega)]
      simp only [found, advance] at hle ⊢
      omega

end Session

/-- **The tokens of a source that is read without a mistake are in order**, but for the one for its
end. -/
theorem inOrder_of_tokenize {source : String} {file? : Option String} {tokens : List Token}
    (h : tokenize source file? = .ok tokens) :
    InOrder source (file?.getD Session.unnamed) (tokens.filter fun token => token.kind ≠ .eof) := by
  obtain ⟨hsize, hresults⟩ := Session.results_of_tokenize h
  have hopen : (Session.start source file?).size ≤ maxOffset := hsize
  constructor
  · intro token htoken
    obtain ⟨hmem, hkind⟩ := List.mem_filter.mp htoken
    rw [← Session.returnedIn_collect hsize h] at hmem
    obtain ⟨lexeme, rest, hmarks, hcut⟩ :=
      Session.marks_of_mem_returnedIn hopen hmem (of_decide_eq_true hkind)
    exact ⟨lexeme, rest, hmarks, Piece.written_of_cut hcut⟩
  · have hordered := @Session.ends_before_starts Rule.table _ _ hopen
      (Session.remainder?_start source file?)
    rw [hresults, List.pairwise_map] at hordered
    exact hordered.sublist List.filter_sublist

/-! ## How an expression is made -/

/-- How an expression is made: the tokens for its leaves and its operators, and how they are put
together. -/
inductive Plan where
  | number (token : Token)
  | string (token : Token)
  | join (left : Plan) (operator : Token) (right : Plan)

/-- The nodes of an expression, each in front of those below it. -/
def Expr.nodes : Expr → List Expr
  | number value span => [number value span]
  | string value span => [string value span]
  | binary left operator right span =>
      binary left operator right span :: (left.nodes ++ right.nodes)

namespace Plan

/-- The expression that is made, unless one of its numbers cannot be read. -/
def build : Plan → Except Error Expr
  | number token => Expr.ofNumber token
  | string token => .ok (Expr.ofString token)
  | join left operator right => do
      let leftSide ← left.build
      let rightSide ← right.build
      return leftSide.join operator rightSide

/-- The token of the leftmost leaf. -/
def first : Plan → Token
  | number token => token
  | string token => token
  | join left _ _ => left.first

/-- The token of the rightmost leaf. -/
def last : Plan → Token
  | number token => token
  | string token => token
  | join _ _ right => right.last

/-- The tokens from left to right, an operator between those of its sides. -/
def tokens : Plan → List Token
  | number token => [token]
  | string token => [token]
  | join left operator right => left.tokens ++ operator :: right.tokens

/-- The parts of a plan, in the order of the nodes that they are for. -/
def parts : Plan → List Plan
  | number token => [number token]
  | string token => [string token]
  | join left operator right => join left operator right :: (left.parts ++ right.parts)

variable {plan part : Plan} {e : Expr}

/-- The leaf for a number has the span of its token. -/
theorem exists_of_ofNumber {token : Token} (h : Expr.ofNumber token = .ok e) :
    ∃ value, e = .number value token.span := by
  unfold Expr.ofNumber at h
  split at h
  · split at h
    · rename_i value _
      exact ⟨value, (Except.ok.inj h).symm⟩
    · exact absurd h (by simp)
  · exact absurd h (by simp)

/-- Where two sides are joined, both have been made. -/
theorem exists_of_build_join {left right : Plan} {operator : Token}
    (h : (join left operator right).build = .ok e) :
    ∃ l r, left.build = .ok l ∧ right.build = .ok r ∧ e = l.join operator r := by
  unfold build at h
  cases hleft : left.build with
  | error error =>
      rw [hleft] at h
      exact absurd h (by simp [bind, Except.bind])
  | ok l =>
      cases hright : right.build with
      | error error =>
          rw [hleft, hright] at h
          exact absurd h (by simp [bind, Except.bind])
      | ok r =>
          rw [hleft, hright] at h
          exact ⟨l, r, rfl, rfl, (Except.ok.inj h).symm⟩

/-- **The span of an expression goes from its first leaf to its last.** -/
theorem span_of_build (h : plan.build = .ok e) : e.span = plan.first.span.cover plan.last.span := by
  induction plan generalizing e with
  | number token =>
      obtain ⟨value, rfl⟩ := exists_of_ofNumber h
      rfl
  | string token =>
      obtain rfl := Except.ok.inj h
      rfl
  | join left operator right ihleft ihright =>
      obtain ⟨l, r, hleft, hright, rfl⟩ := exists_of_build_join h
      show l.span.cover r.span = left.first.span.cover right.last.span
      rw [ihleft hleft, ihright hright]
      rfl

/-- **Each node belongs to a part of the plan.** What holds of all parts and what is made of them
therefore holds at every node. -/
theorem forall₂_of_build {P : Plan → Expr → Prop} (h : plan.build = .ok e)
    (hP : ∀ part node, part ∈ plan.parts → part.build = .ok node → P part node) :
    List.Forall₂ P plan.parts e.nodes := by
  induction plan generalizing e with
  | number token =>
      obtain ⟨value, rfl⟩ := exists_of_ofNumber h
      exact .cons (hP _ _ List.mem_cons_self h) .nil
  | string token =>
      obtain rfl := Except.ok.inj h
      exact .cons (hP _ _ List.mem_cons_self h) .nil
  | join left operator right ihleft ihright =>
      obtain ⟨l, r, hleft, hright, rfl⟩ := exists_of_build_join h
      refine .cons (hP _ _ List.mem_cons_self h) (List.rel_append ?_ ?_)
      · refine ihleft hleft fun part node hpart => hP part node ?_
        exact List.mem_cons_of_mem _ (List.mem_append_left _ hpart)
      · refine ihright hright fun part node hpart => hP part node ?_
        exact List.mem_cons_of_mem _ (List.mem_append_right _ hpart)

/-- The tokens of a part are some of those of the plan. -/
theorem sublist_of_mem_parts (h : part ∈ plan.parts) : part.tokens.Sublist plan.tokens := by
  induction plan with
  | number token =>
      obtain rfl := List.mem_singleton.mp h
      exact List.Sublist.refl _
  | string token =>
      obtain rfl := List.mem_singleton.mp h
      exact List.Sublist.refl _
  | join left operator right ihleft ihright =>
      rcases List.mem_cons.mp h with rfl | h
      · exact List.Sublist.refl _
      · rcases List.mem_append.mp h with h | h
        · exact (ihleft h).trans (List.sublist_append_left _ _)
        · exact (ihright h).trans
            ((List.sublist_cons_self _ _).trans (List.sublist_append_right _ _))

/-- The first token is the one of the leftmost leaf. -/
theorem exists_tokens_eq_cons (plan : Plan) : ∃ others, plan.tokens = plan.first :: others := by
  induction plan with
  | number token => exact ⟨[], rfl⟩
  | string token => exact ⟨[], rfl⟩
  | join left operator right ihleft _ =>
      obtain ⟨others, hothers⟩ := ihleft
      exact ⟨others ++ operator :: right.tokens, congrArg (· ++ operator :: right.tokens) hothers⟩

/-- The token of the rightmost leaf is one of them. -/
theorem last_mem_tokens (plan : Plan) : plan.last ∈ plan.tokens := by
  induction plan with
  | number token => exact List.mem_cons_self
  | string token => exact List.mem_cons_self
  | join left operator right _ ihright =>
      exact List.mem_append_right _ (List.mem_cons_of_mem _ ihright)

theorem first_mem_tokens (plan : Plan) : plan.first ∈ plan.tokens := by
  obtain ⟨others, hothers⟩ := exists_tokens_eq_cons plan
  rw [hothers]
  exact List.mem_cons_self

/-! ## What lies in a span -/

variable {source file : String}

/-- A text begins with the lexeme of one token of a source and ends with that of another. -/
structure Framed (source : String) (first last : Token) (text : List Char) : Prop where
  first : ∃ lexeme, first.span.slice? source.toList = some lexeme
    ∧ Written first.kind first.value lexeme ∧ lexeme <+: text
  last : ∃ lexeme, last.span.slice? source.toList = some lexeme
    ∧ Written last.kind last.value lexeme ∧ lexeme <:+ text

/-- **From the first leaf to the last there is a text**, and they are at its ends. -/
theorem exists_framed (h : InOrder source file plan.tokens) :
    ∃ text rest, (plan.first.span.cover plan.last.span).Marks file source.toList text rest
      ∧ text ≠ [] ∧ Framed source plan.first plan.last text := by
  obtain ⟨first, rest, hfirst, hwritten⟩ := h.marks _ plan.first_mem_tokens
  obtain ⟨last, back, hlast, hwritten'⟩ := h.marks _ plan.last_mem_tokens
  obtain ⟨others, hothers⟩ := plan.exists_tokens_eq_cons
  have hmem := plan.last_mem_tokens
  have hordered := h.ordered
  rw [hothers] at hmem hordered
  rcases List.mem_cons.mp hmem with hsame | hmem
  · -- the first leaf is the last
    rw [hsame]
    exact ⟨first, rest, hfirst, hwritten.ne_nil,
      ⟨first, hfirst.slice?, hwritten, List.prefix_refl _⟩,
      ⟨first, hfirst.slice?, hwritten, List.suffix_refl _⟩⟩
  · obtain ⟨between, hcover⟩ := hfirst.cover hlast ((List.pairwise_cons.mp hordered).1 _ hmem)
    refine ⟨_, back, hcover, by simp [hwritten.ne_nil], ⟨first, hfirst.slice?, hwritten, ?_⟩,
      ⟨last, hlast.slice?, hwritten', List.suffix_append _ _⟩⟩
    rw [List.append_assoc]
    exact List.prefix_append _ _

/-- What the span of a node encloses: a text of the source from the lexeme of the first leaf to that
of the last, and, if the node joins two sides by an operator, these three in order. -/
structure Encloses (source : String) (part : Plan) (node : Expr) : Prop where
  text : ∃ text, node.span.slice? source.toList = some text ∧ Framed source part.first part.last text
  sides : ∀ left operator right span, node = .binary left operator right span →
    left.span.Precedes operator.span ∧ operator.span.Precedes right.span
      ∧ left.span.Inside span ∧ operator.span.Inside span ∧ right.span.Inside span

variable {l r : Expr} {left right : Plan} {operator : Token}

/-- What is made of tokens in order has a span that is not empty. -/
theorem proper_of_build (h : plan.build = .ok e) (horder : InOrder source file plan.tokens) :
    e.span.Proper file := by
  obtain ⟨text, rest, hmarks, hne, -⟩ := exists_framed horder
  rw [← span_of_build h] at hmarks
  exact hmarks.proper hne

/-- **Two sides and the operator between them** are in order, and in the span of what joins them. -/
theorem sides_of_build (hleft : left.build = .ok l) (hright : right.build = .ok r)
    (horder : InOrder source file (left.tokens ++ operator :: right.tokens)) :
    l.span.Precedes operator.span ∧ operator.span.Precedes r.span
      ∧ l.span.Inside (l.span.cover r.span) ∧ operator.span.Inside (l.span.cover r.span)
      ∧ r.span.Inside (l.span.cover r.span) := by
  have hl := proper_of_build hleft (horder.sublist (List.sublist_append_left _ _))
  have hr := proper_of_build hright
    (horder.sublist ((List.sublist_cons_self _ _).trans (List.sublist_append_right _ _)))
  obtain ⟨lexeme, rest, hmarks, hwritten⟩ := horder.marks operator (by simp)
  have ho := hmarks.proper hwritten.ne_nil
  -- the last leaf of the left side ends before the operator, and that before the first of the right
  obtain ⟨-, hbehind, hbefore⟩ := List.pairwise_append.mp horder.ordered
  have hlo : l.span.stop.offset ≤ operator.span.start.offset := by
    rw [span_of_build hleft]
    exact hbefore _ left.last_mem_tokens operator List.mem_cons_self
  have hor : operator.span.stop.offset ≤ r.span.start.offset := by
    rw [span_of_build hright]
    exact (List.pairwise_cons.mp hbehind).1 _ right.first_mem_tokens
  refine ⟨⟨hl.stop.trans ho.start.symm, hlo⟩, ⟨ho.stop.trans hr.start.symm, hor⟩, ?_, ?_, ?_⟩
  · refine ⟨⟨rfl, hl.stop.trans hr.stop.symm⟩, Nat.le_refl _, hl.lt, ?_⟩
    calc l.span.stop.offset
      _ ≤ operator.span.start.offset := hlo
      _ ≤ operator.span.stop.offset := Nat.le_of_lt ho.lt
      _ ≤ r.span.start.offset := hor
      _ ≤ r.span.stop.offset := Nat.le_of_lt hr.lt
  · exact ⟨⟨ho.start.trans hl.start.symm, ho.stop.trans hr.stop.symm⟩,
      Nat.le_trans (Nat.le_of_lt hl.lt) hlo, ho.lt, Nat.le_trans hor (Nat.le_of_lt hr.lt)⟩
  · refine ⟨⟨hr.start.trans hl.start.symm, rfl⟩, ?_, hr.lt, Nat.le_refl _⟩
    calc l.span.start.offset
      _ ≤ l.span.stop.offset := Nat.le_of_lt hl.lt
      _ ≤ operator.span.start.offset := hlo
      _ ≤ operator.span.stop.offset := Nat.le_of_lt ho.lt
      _ ≤ r.span.start.offset := hor

/-- **What is made of tokens in order encloses them**, at its first node. -/
theorem encloses_of_build (h : plan.build = .ok e) (horder : InOrder source file plan.tokens) :
    Encloses source plan e := by
  constructor
  · obtain ⟨text, rest, hmarks, -, hframed⟩ := exists_framed horder
    rw [← span_of_build h] at hmarks
    exact ⟨text, hmarks.slice?, hframed⟩
  · intro l operator r span he
    subst he
    cases plan with
    | number token =>
        obtain ⟨value, hvalue⟩ := exists_of_ofNumber h
        exact absurd hvalue (by simp)
    | string token => exact absurd (Except.ok.inj h) (by simp [Expr.ofString])
    | join left operator' right =>
        obtain ⟨l', r', hleft, hright, he⟩ := exists_of_build_join h
        obtain ⟨rfl, rfl, rfl, rfl⟩ := Expr.binary.inj he
        exact sides_of_build hleft hright horder

/-- **The spans of an expression enclose just its tokens.** At each node, the span goes from the
first leaf of the part that the node is for to the last one, whatever the tokens are. If moreover
they are tokens of a source that is read without a mistake, in their order and without the one for
the end, then the span of each node is that of a text in the source, which begins with the lexeme of
the first leaf and ends with that of the last; and at each node with two sides these and the
operator follow one another in its span. -/
theorem spans_enclose_tokens (h : plan.build = .ok e) :
    List.Forall₂ (fun part node =>
        part.build = .ok node ∧ node.span.start = part.first.span.start
          ∧ node.span.stop = part.last.span.stop) plan.parts e.nodes
      ∧ ∀ source file? tokens, tokenize source file? = .ok tokens →
        plan.tokens.Sublist (tokens.filter fun token => token.kind ≠ .eof) →
        List.Forall₂ (Encloses source) plan.parts e.nodes := by
  constructor
  · refine forall₂_of_build h fun part node _ hbuild => ?_
    rw [span_of_build hbuild]
    exact ⟨hbuild, rfl, rfl⟩
  · intro source file? tokens htokens hsub
    have horder := (inOrder_of_tokenize htokens).sublist hsub
    exact forall₂_of_build h fun part node hpart hbuild =>
      encloses_of_build hbuild (horder.sublist (sublist_of_mem_parts hpart))

/-- The parentheses are no part of the expression, but what stands between two leaves is in the text
of its span. -/
theorem spans_enclose_tokens_parentheses :
    let one : Token := ⟨.number, "1", ⟨⟨1, "shell"⟩, ⟨2, "shell"⟩⟩⟩
    let plus : Token := ⟨.punct .plus, "", ⟨⟨3, "shell"⟩, ⟨4, "shell"⟩⟩⟩
    let name : Token := ⟨.string, "é", ⟨⟨6, "shell"⟩, ⟨10, "shell"⟩⟩⟩
    let star : Token := ⟨.punct .star, "", ⟨⟨10, "shell"⟩, ⟨11, "shell"⟩⟩⟩
    let half : Token := ⟨.number, "0.5", ⟨⟨11, "shell"⟩, ⟨14, "shell"⟩⟩⟩
    let plan : Plan := join (number one) plus (join (string name) star (number half))
    ∃ e tokens, plan.build = .ok e ∧ tokenize "(1 + (\"é\"*0.5))" none = .ok tokens
      ∧ plan.tokens.Sublist (tokens.filter fun token => token.kind ≠ .eof)
      ∧ e.nodes.map (fun node => (node.span.slice? "(1 + (\"é\"*0.5))".toList).map String.ofList) =
        [some "1 + (\"é\"*0.5", some "1", some "\"é\"*0.5", some "\"é\"", some "0.5"]
      ∧ List.Forall₂ (fun part node =>
          part.build = .ok node ∧ node.span.start = part.first.span.start
            ∧ node.span.stop = part.last.span.stop) plan.parts e.nodes
      ∧ List.Forall₂ (Encloses "(1 + (\"é\"*0.5))") plan.parts e.nodes := by
  intro one plus name star half plan
  have hbuild : plan.build.map (fun e => e.nodes.map fun node =>
        (node.span.slice? "(1 + (\"é\"*0.5))".toList).map String.ofList) =
      .ok [some "1 + (\"é\"*0.5", some "1", some "\"é\"*0.5", some "\"é\"", some "0.5"] := by
    decide +kernel
  cases he : plan.build with
  | error error =>
      rw [he] at hbuild
      exact absurd hbuild (by simp [Except.map])
  | ok e =>
      rw [he] at hbuild
      obtain ⟨tokens, htokens, hsub⟩ : ∃ tokens, tokenize "(1 + (\"é\"*0.5))" none = .ok tokens
          ∧ plan.tokens.Sublist (tokens.filter fun token => token.kind ≠ .eof) :=
        ⟨[⟨.punct .openParen, "", ⟨⟨0, "shell"⟩, ⟨1, "shell"⟩⟩⟩, one, plus,
            ⟨.punct .openParen, "", ⟨⟨5, "shell"⟩, ⟨6, "shell"⟩⟩⟩, name, star, half,
            ⟨.punct .closeParen, "", ⟨⟨14, "shell"⟩, ⟨15, "shell"⟩⟩⟩,
            ⟨.punct .closeParen, "", ⟨⟨15, "shell"⟩, ⟨16, "shell"⟩⟩⟩,
            ⟨.eof, "", ⟨⟨16, "shell"⟩, ⟨16, "shell"⟩⟩⟩], by decide +kernel, by decide +kernel⟩
      obtain ⟨hspans, hencloses⟩ := spans_enclose_tokens he
      exact ⟨e, tokens, rfl, htokens, hsub, Except.ok.inj hbuild, hspans,
        hencloses _ none _ htokens hsub⟩

end Plan

end ScriptFront
