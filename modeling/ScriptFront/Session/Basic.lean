import ScriptFront.Lexeme.Scan

/-!
# Sessions

A session reads a source token by token. It holds the whole source and a cursor, which is a byte
offset, and it may keep the spans of what it skips. A scan of the text behind the cursor says
what comes next, and `settle` adds what a scan does not know: where the pieces stand.

Tokens can be asked for in three ways. `nextToken?` always scans from where the cursor is. After
the end of the source, or a mistake, the cursor does not move on, so it gives the same answer
again. `next?` gives that answer once and stops there for good, wherever the cursor is moved
afterwards. `collect?` is `next?` until it stops.

The cursor can be moved to any offset. One past the end counts as the end. One inside a character
is no place to read from, and each of the three then answers `none` and leaves the session as it
was. A source too long for its offsets to be counted is refused by all of them.
-/

namespace ScriptFront

/-- A source that is being read. -/
structure Session where
  text : List Char
  /-- The name of the source in positions. -/
  file : String
  /-- The cursor: a byte offset, in the text or past it. -/
  pos : Nat
  /-- The spans skipped since recording began, if it has begun. -/
  recorded? : Option (List Span)
  /-- Whether the end of the source or a mistake has been returned. -/
  finished : Bool
deriving DecidableEq, Repr

namespace Session

/-- The name of a source that has none. -/
def unnamed : String := "shell"

/-- A session at the start of a source. -/
def start (source : String) (file? : Option String) : Session where
  text := source.toList
  file := file?.getD unnamed
  pos := 0
  recorded? := none
  finished := false

/-! ## Questions that change nothing -/

/-- The length of the source in bytes. -/
def size (s : Session) : Nat := Text.width s.text

/-- The position of an offset in the source. -/
def positionAt (s : Session) (offset : Nat) : Position := Position.clamped offset s.file

/-- The span between two offsets in the source. -/
def span (s : Session) (start stop : Nat) : Span := ⟨s.positionAt start, s.positionAt stop⟩

/-- Whether the cursor is at the end of the source or past it. -/
def atEnd (s : Session) : Bool := s.size ≤ s.pos

/-- The text behind the cursor, if the cursor is at a place in the source. -/
def remainder? (s : Session) : Option (List Char) :=
  (Text.splitAtByte? s.pos s.text).map (·.2)

/-- The text still to be read, of which there is none past the end. -/
def unread? (s : Session) : Option (List Char) :=
  if s.atEnd then some [] else s.remainder?

/-- The spans skipped since recording began. -/
def trivia (s : Session) : List Span := s.recorded?.getD []

/-! ## Moving on -/

/-- Move the cursor by a number of bytes, wherever that leads. -/
def advance (s : Session) (bytes : Nat) : Session := { s with pos := s.pos + bytes }

/-- Keep what is skipped from now on, and forget what was kept before. -/
def recordTrivia (s : Session) : Session := { s with recorded? := some [] }

/-- The spans of lexemes that follow one another from an offset. -/
def spansFrom (s : Session) (offset : Nat) : List (List Char) → List Span
  | [] => []
  | lexeme :: lexemes =>
      s.span offset (offset + Text.width lexeme) ::
        s.spansFrom (offset + Text.width lexeme) lexemes

/-- What a scan of the text behind the cursor returns, and the session after it. -/
def settle (s : Session) (scan : Scan) : Except Error Token × Session :=
  let found := s.pos + Text.width scan.skipped.flatten
  let recorded? := s.recorded?.map (· ++ s.spansFrom s.pos scan.skipped)
  match scan.finding with
  | .eof =>
      (.ok ⟨.eof, "", s.span found found⟩,
        { s with pos := found, recorded? := recorded?, finished := true })
  | .token kind value lexeme _ =>
      (.ok ⟨kind, value, s.span found (found + Text.width lexeme)⟩,
        { s with pos := found + Text.width lexeme, recorded? := recorded? })
  | .mistake cause =>
      (.error ⟨cause, s.positionAt found⟩,
        { s with pos := found, recorded? := recorded?, finished := true })

/-- The error for a source that is too long, if it is. -/
def oversize? (s : Session) : Option Error :=
  if maxOffset < s.size then some ⟨.sourceTooLarge s.size, s.positionAt 0⟩ else none

/-- The same session, done with. -/
def finish (s : Session) : Session := { s with finished := true }

/-- The token that comes next from the cursor on, or the mistake that is made there. -/
def nextToken? (rules : List Rule) (s : Session) : Option (Except Error Token × Session) :=
  match s.oversize? with
  | some error => some (.error error, s.finish)
  | none => s.unread?.map fun rest => s.settle (Scan.of rules rest)

/-- The same, but nothing more once the end or a mistake has been returned. -/
def next? (rules : List Rule) (s : Session) : Option (Option (Except Error Token) × Session) :=
  if s.finished then some (none, s)
  else (s.nextToken? rules).map fun (result, after) => (some result, after)

/-! ## Reading to the end -/

/-- What reading to the end comes to. -/
structure Sweep where
  /-- The tokens, with the one for the end unless there was a mistake. -/
  tokens : List Token
  error? : Option Error
  session : Session
deriving DecidableEq, Repr

/-- The tokens of a sweep, or the mistake it ended with. -/
def Sweep.result (sweep : Sweep) : Except Error (List Token) :=
  match sweep.error? with
  | none => .ok sweep.tokens
  | some error => .error error

/-- The same sweep with one more token in front. -/
def Sweep.after (token : Token) (sweep : Sweep) : Sweep :=
  { sweep with tokens := token :: sweep.tokens }

/-- Read to the end, given the text still to be read. -/
def sweepText (rules : List Rule) (s : Session) (cs : List Char) : Sweep :=
  let scan := Scan.of rules cs
  let step := s.settle scan
  match step.1 with
  | .error error => ⟨[], some error, step.2⟩
  | .ok token =>
      match _hrest : scan.rest? with
      | none => ⟨[token], none, step.2⟩
      | some rest => (sweepText rules step.2 rest).after token
termination_by cs.length
decreasing_by exact Scan.rest?_length_lt _hrest

/-- Read to the end, unless the session is done with. -/
def sweep? (rules : List Rule) (s : Session) : Option Sweep :=
  if s.finished then some ⟨[], none, s⟩
  else
    match s.oversize? with
    | some error => some ⟨[], some error, s.finish⟩
    | none => s.unread?.map (s.sweepText rules)

/-- All tokens that are left, or the mistake that comes before the end. -/
def collect? (rules : List Rule) (s : Session) : Option (Except Error (List Token) × Session) :=
  (s.sweep? rules).map fun sweep => (sweep.result, sweep.session)

end Session

/-- All tokens of a source with the one for its end, or the first mistake in it. -/
def tokenizeWith (rules : List Rule) (source : String) (file? : Option String) :
    Except Error (List Token) :=
  let s := Session.start source file?
  match s.oversize? with
  | some error => .error error
  | none => (s.sweepText rules s.text).result

/-- All tokens of a source under the rules of the language, or the first mistake in it. -/
def tokenize (source : String) (file? : Option String) : Except Error (List Token) :=
  tokenizeWith Rule.table source file?

end ScriptFront
