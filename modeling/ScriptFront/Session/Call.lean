import ScriptFront.Session.Basic

/-!
# Runs of a session

Whoever reads a source does so by a series of calls, some of which move the cursor and some of
which only ask. `Call` lists them, `Reply` lists the answers, and a run is a list of calls made
one after another. With calls as data, a statement about every way in which a session can be
used is a statement about every list.
-/

namespace ScriptFront

/-- Something that a session can be asked to do. -/
inductive Call where
  | nextToken
  | next
  | collect
  | advance (bytes : Nat)
  | recordTrivia
  | trivia
  | char
  | remainder
  | atEnd
  | positionAt (offset : Nat)
  | span (start stop : Nat)
deriving DecidableEq, Repr

/-- What a session answers. -/
inductive Reply where
  | token (token : Token)
  | error (error : Error)
  /-- There is nothing more to be had. -/
  | exhausted
  | tokens (tokens : List Token)
  /-- The call changes the session and has no other answer. -/
  | done
  | spans (spans : List Span)
  /-- The character behind the cursor, if there is one. -/
  | char (char? : Option Char)
  | text (text : List Char)
  | flag (flag : Bool)
  | position (position : Position)
  | span (span : Span)
  /-- The cursor is at no place in the source, so there is no answer. -/
  | misplaced
deriving DecidableEq, Repr

namespace Reply

/-- The reply to a call for one token. -/
def ofResult : Except Error Token → Reply
  | .ok next => .token next
  | .error mistake => .error mistake

/-- The reply to a call for all tokens. -/
def ofResults : Except Error (List Token) → Reply
  | .ok all => .tokens all
  | .error mistake => .error mistake

end Reply

namespace Session

/-- The reply to a call, and the session after it. A call without an answer changes nothing. -/
def answer (rules : List Rule) (s : Session) : Call → Reply × Session
  | .nextToken =>
      match s.nextToken? rules with
      | none => (.misplaced, s)
      | some (result, after) => (.ofResult result, after)
  | .next =>
      match s.next? rules with
      | none => (.misplaced, s)
      | some (none, after) => (.exhausted, after)
      | some (some result, after) => (.ofResult result, after)
  | .collect =>
      match s.collect? rules with
      | none => (.misplaced, s)
      | some (results, after) => (.ofResults results, after)
  | .advance bytes => (.done, s.advance bytes)
  | .recordTrivia => (.done, s.recordTrivia)
  | .trivia => (.spans s.trivia, s)
  | .char =>
      match s.remainder? with
      | none => (.misplaced, s)
      | some rest => (.char rest.head?, s)
  | .remainder =>
      match s.remainder? with
      | none => (.misplaced, s)
      | some rest => (.text rest, s)
  | .atEnd => (.flag s.atEnd, s)
  | .positionAt offset => (.position (s.positionAt offset), s)
  | .span start stop => (.span (s.span start stop), s)

/-- The replies to calls made one after another, each with the session after it. -/
def run (rules : List Rule) (s : Session) : List Call → List (Reply × Session)
  | [] => []
  | call :: calls =>
      let step := s.answer rules call
      step :: run rules step.2 calls

end Session

end ScriptFront
