import ScriptFront.Proofs.Cursor
import ScriptFront.Session.Call

/-!
# Runs, call by call

`Session.run` lists replies and sessions. To reason about a run one wants two other things: the
session that a list of calls leads to, and the fact that the reply to a call in the middle of a
run is what that session answers. `after` is the first, `mem_run_iff` the second.

A property that every call keeps holds after every run (`after_induction`), and the source is the
first such property: no call changes the text or the name of the file.
-/

namespace ScriptFront

variable {rules : List Rule}

namespace Call

/-- Whether a call asks for one token. -/
def pulls : Call → Bool
  | .next => true
  | .nextToken => true
  | _ => false

/-- Whether a call moves the cursor without reading. -/
def jumps : Call → Bool
  | .advance _ => true
  | _ => false

/-- A call for a token does not jump. -/
theorem jumps_of_pulls {call : Call} (h : call.pulls = true) : call.jumps = false := by
  cases call with
  | advance bytes => exact absurd h (by simp [pulls])
  | _ => rfl

end Call

namespace Session

variable {s : Session}

/-- The session that a list of calls leads to. -/
def after (rules : List Rule) (s : Session) : List Call → Session
  | [] => s
  | call :: calls => after rules (s.answer rules call).2 calls

@[simp] theorem after_nil (rules : List Rule) (s : Session) : s.after rules [] = s := rfl

@[simp] theorem after_cons (rules : List Rule) (s : Session) (call : Call) (calls : List Call) :
    s.after rules (call :: calls) = (s.answer rules call).2.after rules calls := rfl

@[simp] theorem run_nil (rules : List Rule) (s : Session) : s.run rules [] = [] := rfl

@[simp] theorem run_cons (rules : List Rule) (s : Session) (call : Call) (calls : List Call) :
    s.run rules (call :: calls) =
      s.answer rules call :: (s.answer rules call).2.run rules calls := rfl

theorem after_append (rules : List Rule) (s : Session) (before calls : List Call) :
    s.after rules (before ++ calls) = (s.after rules before).after rules calls := by
  induction before generalizing s with
  | nil => rfl
  | cons call before ih => exact ih _

/-- **A step of a run is an answer of the session that the calls before it lead to.** -/
theorem mem_run_iff {calls : List Call} {step : Reply × Session} :
    step ∈ s.run rules calls ↔
      ∃ before call later, calls = before ++ call :: later
        ∧ step = (s.after rules before).answer rules call := by
  induction calls generalizing s with
  | nil => simp
  | cons first calls ih =>
      rw [run_cons, List.mem_cons, ih]
      constructor
      · intro h
        rcases h with rfl | ⟨before, call, later, rfl, rfl⟩
        · exact ⟨[], first, calls, rfl, rfl⟩
        · exact ⟨first :: before, call, later, rfl, rfl⟩
      · intro h
        obtain ⟨before, call, later, hcalls, rfl⟩ := h
        cases before with
        | nil =>
            injection hcalls with hfirst _
            exact Or.inl (by rw [hfirst]; rfl)
        | cons b before =>
            injection hcalls with hfirst hrest
            exact Or.inr ⟨before, call, later, hrest, by rw [hfirst]; rfl⟩

/-- What every call of a list keeps holds after the list. -/
theorem after_induction {P : Session → Prop} {calls : List Call} (h : P s)
    (hstep : ∀ t, ∀ call ∈ calls, P t → P (t.answer rules call).2) :
    P (s.after rules calls) := by
  induction calls generalizing s with
  | nil => exact h
  | cons call calls ih =>
      refine ih (hstep s call (by simp) h) ?_
      intro t c hc
      exact hstep t c (List.mem_cons_of_mem _ hc)

/-! ## What no call changes -/

/-- Reading to the end leaves the source alone. -/
theorem sweepText_source (rules : List Rule) (s : Session) (cs : List Char) :
    (s.sweepText rules cs).session.text = s.text
      ∧ (s.sweepText rules cs).session.file = s.file := by
  fun_induction sweepText rules s cs with
  | case1 s cs scan step error herror => exact ⟨settle_text s scan, settle_file s scan⟩
  | case2 s cs scan step token htoken hrest => exact ⟨settle_text s scan, settle_file s scan⟩
  | case3 s cs scan step token htoken rest hrest ih =>
      have htext : step.2.text = s.text := settle_text s scan
      have hfile : step.2.file = s.file := settle_file s scan
      exact ⟨ih.1.trans htext, ih.2.trans hfile⟩

theorem nextToken?_source {result : Except Error Token} {t : Session}
    (h : s.nextToken? rules = some (result, t)) : t.text = s.text ∧ t.file = s.file := by
  unfold nextToken? at h
  split at h
  · injection h with h
    injection h with _ h
    rw [← h]
    exact ⟨rfl, rfl⟩
  · obtain ⟨rest, _, hsettle⟩ := Option.map_eq_some_iff.mp h
    have hsnd : t = (s.settle (Scan.of rules rest)).2 := by rw [hsettle]
    rw [hsnd]
    exact ⟨settle_text _ _, settle_file _ _⟩

theorem next?_source {result? : Option (Except Error Token)} {t : Session}
    (h : s.next? rules = some (result?, t)) : t.text = s.text ∧ t.file = s.file := by
  unfold next? at h
  split at h
  · injection h with h
    injection h with _ h
    rw [← h]
    exact ⟨rfl, rfl⟩
  · obtain ⟨step, hstep, heq⟩ := Option.map_eq_some_iff.mp h
    injection heq with _ ht
    rw [← ht]
    exact nextToken?_source hstep

theorem collect?_source {results : Except Error (List Token)} {t : Session}
    (h : s.collect? rules = some (results, t)) : t.text = s.text ∧ t.file = s.file := by
  unfold collect? at h
  obtain ⟨sweep, hsweep, heq⟩ := Option.map_eq_some_iff.mp h
  injection heq with _ ht
  rw [← ht]
  unfold sweep? at hsweep
  split at hsweep
  · injection hsweep with hsweep
    rw [← hsweep]
    exact ⟨rfl, rfl⟩
  · split at hsweep
    · injection hsweep with hsweep
      rw [← hsweep]
      exact ⟨rfl, rfl⟩
    · obtain ⟨rest, _, rfl⟩ := Option.map_eq_some_iff.mp hsweep
      exact sweepText_source rules s rest

/-- **No call changes the source.** -/
theorem answer_source (rules : List Rule) (s : Session) (call : Call) :
    (s.answer rules call).2.text = s.text ∧ (s.answer rules call).2.file = s.file := by
  unfold answer
  cases call with
  | nextToken =>
      cases hnext : s.nextToken? rules with
      | none => exact ⟨rfl, rfl⟩
      | some step => exact nextToken?_source hnext
  | next =>
      cases hnext : s.next? rules with
      | none => exact ⟨rfl, rfl⟩
      | some step =>
          obtain ⟨result?, t⟩ := step
          cases result? <;> exact next?_source hnext
  | collect =>
      cases hcollect : s.collect? rules with
      | none => exact ⟨rfl, rfl⟩
      | some step => exact collect?_source hcollect
  | char => cases s.remainder? <;> exact ⟨rfl, rfl⟩
  | remainder => cases s.remainder? <;> exact ⟨rfl, rfl⟩
  | _ => exact ⟨rfl, rfl⟩

/-- The source is what it was at the start. -/
theorem after_source (rules : List Rule) (s : Session) (calls : List Call) :
    (s.after rules calls).text = s.text ∧ (s.after rules calls).file = s.file := by
  induction calls generalizing s with
  | nil => exact ⟨rfl, rfl⟩
  | cons call calls ih =>
      have hstep := answer_source rules s call
      have hrest := ih (s.answer rules call).2
      exact ⟨hrest.1.trans hstep.1, hrest.2.trans hstep.2⟩

/-- So a source that is not too long never is. -/
theorem answer_size (rules : List Rule) (s : Session) (call : Call) :
    (s.answer rules call).2.size = s.size :=
  congrArg Text.width (answer_source rules s call).1

theorem after_size (rules : List Rule) (s : Session) (calls : List Call) :
    (s.after rules calls).size = s.size :=
  congrArg Text.width (after_source rules s calls).1

end Session

end ScriptFront
