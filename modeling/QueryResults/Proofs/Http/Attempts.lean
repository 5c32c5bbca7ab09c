import QueryResults.Http.QueryService

/-!
# Attempts

A request is sent by attempts. In each of them the request as it was made is signed, and what comes
of it is sent, so no signature is ever seen by another attempt. An attempt that failed in a way that
may pass by itself is repeated after a wait, as long as retries are left. What is seen of all this
is the *course* of the request: the attempts that were repeated, and how it ended. It ends with the
first attempt whose outcome is there to stay, with the attempt behind the last retry, or with a
signature that is refused.

## Main definitions

* `Http.Transport.Event`, `Http.Transport.recorded`: what passes between a request and its
  transport, and a record of it.
* `Http.Request.Attempt`, `Http.Request.Ending`, `Http.Request.Course`: attempts, how they end, and
  both together.
* `Http.Outcome.MayPass`, `Http.Outcome.ComesTo`: outcomes, and what is reported of the last.
* `Http.Transport.KeepsBodies`: building leaves bodies alone.

## Main results

* `Http.hasCourse_executeFrom`: every run of attempts has a course, and is told by it.
* `Http.execute_attempts`: what the course of a request looks like, and what it comes to.
-/

namespace QueryResults.Http

variable {σ : Type}

/-! ### Records -/

/-- What passes between a request and its transport. -/
inductive Transport.Event where
  | signed (r : Request) (signature : Except Failure Request)
  | sent (r : Request) (outcome : Outcome)
  | paused (span : Duration)

open Transport (Event)

/-- The same transport with a record of what passes, oldest first. -/
def Transport.recorded (t : Transport σ) : Transport (σ × List Event) where
  build := t.build
  sign r s :=
    let (signature, s') := t.sign r s.1
    (signature, s', s.2 ++ [.signed r signature])
  send r s :=
    let (outcome, s') := t.send r s.1
    (outcome, s', s.2 ++ [.sent r outcome])
  pause span s := (t.pause span s.1, s.2 ++ [.paused span])

/-- The same service with a record of what passes between its requests and their transport. -/
def QueryService.recorded (q : QueryService σ) : QueryService (σ × List Event) where
  settings := q.settings
  transport := q.transport.recorded
  endpoint := q.endpoint
  newToken s :=
    let (token, s') := q.newToken s.1
    (token, s', s.2)

/-! ### Courses -/

/-- An attempt whose request was sent: the request with its signature, and what became of it. -/
structure Request.Attempt where
  signed : Request
  outcome : Outcome

/-- What passes in an attempt at a request. -/
def Request.Attempt.events (r : Request) (a : Attempt) : List Event :=
  [.signed r (.ok a.signed), .sent a.signed a.outcome]

theorem Request.Attempt.eq_of_events_eq {r : Request} {a b : Request.Attempt}
    (h : a.events r = b.events r) : a = b := by
  cases a
  cases b
  simp only [Attempt.events, List.cons.injEq, Event.signed.injEq, Event.sent.injEq,
    Except.ok.injEq] at h
  rw [h.1.2, h.2.1.2]

/-- How attempts at a request end. -/
inductive Request.Ending where
  /-- The signature was refused, and nothing was sent. -/
  | unsigned (e : Failure)
  | attempt (a : Attempt)

/-- What passes at the end of the attempts at a request. -/
def Request.Ending.events (r : Request) : Ending → List Event
  | unsigned e => [.signed r (.error e)]
  | attempt a => a.events r

/-- What is seen of the attempts at a request: those that were repeated, and the end. -/
structure Request.Course where
  repeated : List Attempt
  ending : Ending

open Request (Attempt Ending Course)

/-- What passes in attempts at a request that are repeated, the first of them numbered `number`:
each is followed by the wait of its number. -/
def repeatedEvents (settings : Settings.Transport) (r : Request) : Nat → List Attempt → List Event
  | _, [] => []
  | number, a :: rest =>
    a.events r ++ .paused (retryWait settings number) :: repeatedEvents settings r (number + 1) rest

namespace Request.Course

/-- What passes in the course of a request. -/
def events (settings : Settings.Transport) (r : Request) (number : Nat) (c : Course) : List Event :=
  repeatedEvents settings r number c.repeated ++ c.ending.events r

/-- The reason for the latest repetition. -/
def noted (before : Option String) (c : Course) : Option String :=
  (c.repeated.getLast?.map fun a => retryReason? a.outcome).getD before

/-- What the course of a request comes to. -/
def result (number : Nat) (before : Option String) (c : Course) : Except Failure Response :=
  match c.ending with
  | .unsigned e => .error e
  | .attempt a => conclude (number + c.repeated.length) (c.noted before) a.outcome

theorem events_once (settings : Settings.Transport) (r : Request) (number : Nat) (a : Attempt) :
    Course.events settings r number ⟨[], .attempt a⟩ = a.events r := rfl

/-- A course of one attempt comes to what is concluded from its outcome. -/
theorem result_once (number : Nat) (before : Option String) (a : Attempt) :
    Course.result number before ⟨[], .attempt a⟩ = conclude number before a.outcome := rfl

/-- The same course behind one more attempt. -/
def after (a : Attempt) (c : Course) : Course := { c with repeated := a :: c.repeated }

/-- Attempts are repeated if what stopped them may pass and retries are left, and only then. -/
structure Fits (c : Course) (left : Nat) : Prop where
  length_le : c.repeated.length ≤ left
  reason : ∀ a ∈ c.repeated, (retryReason? a.outcome).isSome
  last : ∀ a, c.ending = .attempt a → (retryReason? a.outcome).isSome → c.repeated.length = left

theorem events_after (settings : Settings.Transport) (r : Request) (number : Nat) (a : Attempt)
    (c : Course) : (c.after a).events settings r number =
      a.events r ++ .paused (retryWait settings number) :: c.events settings r (number + 1) := by
  simp [events, after, repeatedEvents]

theorem length_events_ending (r : Request) (ending : Ending) : (ending.events r).length ≤ 2 := by
  cases ending <;> simp [Ending.events, Attempt.events]

/-- What passes in the course of a request tells the course. -/
theorem eq_of_events_eq {settings : Settings.Transport} {r : Request} {number : Nat}
    {c c' : Course} (h : c.events settings r number = c'.events settings r number) : c = c' := by
  have longer (number : Nat) (a : Attempt) (rest : List Attempt) (ending ending' : Ending) :
      events settings r number ⟨a :: rest, ending⟩ ≠ ending'.events r := fun h => by
    have hlength := congrArg List.length h
    have hle := length_events_ending r ending'
    simp only [events, repeatedEvents, Attempt.events, List.length_append, List.length_cons,
      List.length_nil] at hlength
    omega
  obtain ⟨repeated, ending⟩ := c
  obtain ⟨repeated', ending'⟩ := c'
  induction repeated generalizing number repeated' with
  | nil =>
    cases repeated' with
    | nil =>
      replace h : ending.events r = ending'.events r := h
      cases ending with
      | unsigned e =>
        cases ending' with
        | unsigned e' =>
          cases h
          rfl
        | attempt b => cases h
      | attempt a =>
        cases ending' with
        | unsigned e' => cases h
        | attempt b => rw [Attempt.eq_of_events_eq h]
    | cons b rest' => exact absurd h.symm (longer number b rest' ending' ending)
  | cons a rest ih =>
    cases repeated' with
    | nil => exact absurd h (longer number a rest ending ending')
    | cons b rest' =>
      have hsame : (a.events r).length = (b.events r).length := rfl
      simp only [events, repeatedEvents, List.append_assoc] at h
      obtain ⟨hattempt, hrest⟩ := List.append_inj h hsame
      cases Attempt.eq_of_events_eq hattempt
      cases ih rest' (List.tail_eq_of_cons_eq hrest)
      rfl
theorem result_after (number : Nat) (before : Option String) (a : Attempt) (c : Course) :
    (c.after a).result number before = c.result (number + 1) (retryReason? a.outcome) := by
  have hnoted : (c.after a).noted before = c.noted (retryReason? a.outcome) := by
    simp only [noted, after, List.getLast?_cons]
    cases c.repeated.getLast? <;> rfl
  have hnumber : number + (c.repeated.length + 1) = number + 1 + c.repeated.length := by omega
  unfold result
  rw [hnoted]
  simp only [after, List.length_cons, hnumber]

/-- A repeated attempt uses up a retry. -/
theorem Fits.after {c : Course} {left : Nat} (h : c.Fits left) {a : Attempt}
    (ha : (retryReason? a.outcome).isSome) : (c.after a).Fits (left + 1) where
  length_le := Nat.succ_le_succ h.length_le
  reason := List.forall_mem_cons.2 ⟨ha, h.reason⟩
  last x hx hpass := congrArg Nat.succ (h.last x hx hpass)

end Request.Course

/-! ### Runs of attempts -/

variable (settings : Settings.Transport) (transport : Transport σ)

/-- An attempt either ends with a signature that is refused, or its request is sent. The record
tells which, and nothing else. -/
theorem attempt_cases (r : Request) (s : σ) (log : List Event) :
    (∃ e s', attempt transport r s = (.error e, s') ∧
      attempt transport.recorded r (s, log) = (.error e, s', log ++ [.signed r (.error e)])) ∨
    ∃ (a : Attempt) (s' : σ), attempt transport r s = (.ok a.outcome, s') ∧
      attempt transport.recorded r (s, log) = (.ok a.outcome, s', log ++ a.events r) := by
  rcases hsign : transport.sign r s with ⟨e | signed, s₁⟩
  · exact .inl ⟨e, s₁, by simp [attempt, hsign], by simp [attempt, Transport.recorded, hsign]⟩
  · rcases hsend : transport.send signed s₁ with ⟨outcome, s₂⟩
    refine .inr ⟨⟨signed, outcome⟩, s₂, by simp [attempt, hsign, hsend], ?_⟩
    simp [attempt, Transport.recorded, hsign, hsend, Attempt.events]

/-- A run of attempts has a course: the run comes to what the course comes to, with a record or
without, and the record tells the course. -/
def HasCourse (r : Request) (left number : Nat) (before : Option String) (s : σ)
    (log : List Event) : Prop :=
  ∃ c : Course, c.Fits left ∧ ∃ s',
    executeFrom settings transport r left number before s = (c.result number before, s') ∧
    executeFrom settings transport.recorded r left number before (s, log) =
      (c.result number before, s', log ++ c.events settings r number)

section Run

variable {settings transport} {r : Request} {left number : Nat} {before : Option String}
  {s s' : σ} {log : List Event}

theorem hasCourse_of_unsigned {e : Failure} (hplain : attempt transport r s = (.error e, s'))
    (hrecorded : attempt transport.recorded r (s, log) =
      (.error e, s', log ++ [.signed r (.error e)])) :
    HasCourse settings transport r left number before s log := by
  refine ⟨⟨[], .unsigned e⟩, ⟨Nat.zero_le left, by simp, by simp⟩, s', ?_, ?_⟩
  · cases left <;> simp only [executeFrom, hplain, Course.result]
  · cases left <;> simp only [executeFrom, hrecorded] <;> rfl

theorem hasCourse_of_last {a : Attempt} (hplain : attempt transport r s = (.ok a.outcome, s'))
    (hrecorded : attempt transport.recorded r (s, log) = (.ok a.outcome, s', log ++ a.events r))
    (hlast : (retryReason? a.outcome).isSome → left = 0) :
    HasCourse settings transport r left number before s log := by
  refine ⟨⟨[], .attempt a⟩, ⟨Nat.zero_le left, by simp, ?_⟩, s', ?_⟩
  · rintro x ⟨⟩ hpass
    exact (hlast hpass).symm
  · cases left with
    | zero =>
      simp only [executeFrom, hplain, hrecorded, Course.result_once, Course.events_once, and_self]
    | succ left =>
      have hreason : retryReason? a.outcome = none := by
        simpa using mt hlast (Nat.succ_ne_zero left)
      simp only [executeFrom, hplain, hrecorded, hreason, Course.result_once, Course.events_once,
        and_self]

theorem hasCourse_of_repeated {a : Attempt} {reason : String}
    (hplain : attempt transport r s = (.ok a.outcome, s'))
    (hrecorded : attempt transport.recorded r (s, log) = (.ok a.outcome, s', log ++ a.events r))
    (hreason : retryReason? a.outcome = some reason)
    (hrest : HasCourse settings transport r left (number + 1) (some reason)
      (transport.pause (retryWait settings number) s')
      (log ++ a.events r ++ [.paused (retryWait settings number)])) :
    HasCourse settings transport r (left + 1) number before s log := by
  obtain ⟨c, hfits, s'', hrest, hrest'⟩ := hrest
  refine ⟨c.after a, hfits.after (by rw [hreason]; rfl), s'', ?_, ?_⟩
  · simp only [executeFrom, hplain, hreason]
    rw [hrest, Course.result_after, hreason]
  · simp only [executeFrom, hrecorded, hreason]
    refine Eq.trans hrest' ?_
    rw [Course.result_after, hreason, Course.events_after]
    simp only [List.append_assoc, List.singleton_append]

end Run

/-- Every run of attempts has a course. -/
theorem hasCourse_executeFrom (r : Request) (left number : Nat) (before : Option String) (s : σ)
    (log : List Event) : HasCourse settings transport r left number before s log := by
  induction left generalizing number before s log with
  | zero =>
    rcases attempt_cases transport r s log with ⟨e, s', hplain, hrecorded⟩ |
      ⟨a, s', hplain, hrecorded⟩
    · exact hasCourse_of_unsigned hplain hrecorded
    · exact hasCourse_of_last hplain hrecorded fun _ => rfl
  | succ left ih =>
    rcases attempt_cases transport r s log with ⟨e, s', hplain, hrecorded⟩ |
      ⟨a, s', hplain, hrecorded⟩
    · exact hasCourse_of_unsigned hplain hrecorded
    · cases hreason : retryReason? a.outcome with
      | none => exact hasCourse_of_last hplain hrecorded (by simp [hreason])
      | some reason => exact hasCourse_of_repeated hplain hrecorded hreason (ih ..)

/-- A request that can be sent again has a course. -/
theorem exists_course {r : Request} (hr : r.replayable = true) (s : σ) (log : List Event) :
    ∃ c : Course, c.Fits settings.maxRetries.toNat ∧ ∃ s',
      execute settings transport r s = (c.result 1 none, s') ∧
      execute settings transport.recorded r (s, log) =
        (c.result 1 none, s', log ++ c.events settings r 1) := by
  unfold execute
  rw [if_pos hr, if_pos hr]
  exact hasCourse_executeFrom settings transport r _ 1 none s log

/-! ### Outcomes -/

/-- What stopped an attempt may pass by itself. -/
def Outcome.MayPass : Outcome → Prop
  | response r => r.status = 429 ∨ r.status = 502 ∨ r.status = 503 ∨ r.status = 504
  | fault f => f.timedOut = true ∨ f.unconnected = true ∨ f.unsent = true

/-- The kind of failure that a status stands for. -/
def statusKind : Nat → Failure.Kind
  | 404 => .notFound
  | 408 => .timeout
  | 412 => .preconditionFailed
  | _ => .io

/-- What is reported of the last outcome: the response itself if the request was served, its status
and its text if it was not, and the fault if there was no response. -/
inductive Outcome.ComesTo : Outcome → Except Failure Response → Prop
  | served {r : Response} (hstatus : 200 ≤ r.status ∧ r.status < 300) :
      ComesTo (.response r) (.ok r)
  | refused {r : Response} {e : Failure} (hstatus : ¬ (200 ≤ r.status ∧ r.status < 300))
      (hkind : e.kind = statusKind r.status)
      (hmessage : e.message =
        "HTTP " ++ toString r.status ++ " - " ++ r.text.toOption.getD "") :
      ComesTo (.response r) (.error e)
  | broken {f : Fault} {e : Failure} (hkind : e.kind = if f.timedOut then .timeout else .io)
      (hcause : e.cause = some (.outside f.text)) : ComesTo (.fault f) (.error e)

/-- There is a reason to repeat an attempt if and only if what stopped it may pass by itself. -/
theorem isSome_retryReason?_iff (outcome : Outcome) :
    (retryReason? outcome).isSome ↔ outcome.MayPass := by
  cases outcome with
  | response r =>
    have hstatus : isPassingStatus r.status = true ↔ (Outcome.response r).MayPass := by
      simp [isPassingStatus, Outcome.MayPass]
    rw [← hstatus, retryReason?]
    split
    next h => simp [h]
    next h => simp [h]
  | fault f =>
    have hfault : f.isPassing = true ↔ (Outcome.fault f).MayPass := by
      simp [Fault.isPassing, Outcome.MayPass, or_assoc]
    rw [← hfault, retryReason?]
    split
    next h => simp [h]
    next h => simp [h]

theorem kind_statusFailure (status : Nat) (body : String) :
    (statusFailure status body).kind = statusKind status := by
  unfold statusKind
  split
  · rfl
  · rfl
  · rfl
  · rename_i h404 h408 h412
    simp only [statusFailure, if_neg h404, if_neg h408, if_neg h412]

/-- What an attempt comes to is reported of its outcome. -/
theorem comesTo_conclude (number : Nat) (noted : Option String) (outcome : Outcome) :
    outcome.ComesTo (conclude number noted outcome) := by
  cases outcome with
  | response r =>
    have hsuccess : isSuccess r.status = true ↔ 200 ≤ r.status ∧ r.status < 300 := by
      simp [isSuccess]
    by_cases h : isSuccess r.status = true
    · rw [conclude, if_pos h]
      exact .served (hsuccess.1 h)
    · rw [conclude, if_neg h]
      exact .refused (mt hsuccess.2 h) (kind_statusFailure ..) rfl
  | fault f => exact .broken rfl rfl

/-! ### Submissions -/

theorem eq_of_signed_mem_events {r q : Request} {signature : Except Failure Request}
    {number : Nat} {c : Course} (h : .signed q signature ∈ c.events settings r number) : q = r := by
  have hattempt {a : Attempt} (ha : .signed q signature ∈ a.events r) : q = r := by
    simp only [Attempt.events, List.mem_cons, Event.signed.injEq, List.not_mem_nil, or_false,
      reduceCtorEq] at ha
    exact ha.1
  have hrepeated {attempts : List Attempt} {number : Nat}
      (ha : .signed q signature ∈ repeatedEvents settings r number attempts) : q = r := by
    induction attempts generalizing number with
    | nil => cases ha
    | cons a rest ih =>
      rcases List.mem_append.1 ha with ha | ha
      · exact hattempt ha
      · exact ih ((List.mem_cons.1 ha).resolve_left fun heq => by cases heq)
  rcases List.mem_append.1 h with h | h
  · exact hrepeated h
  · cases hending : c.ending with
    | unsigned e =>
      rw [hending] at h
      cases List.mem_singleton.1 h
      rfl
    | attempt a =>
      rw [hending] at h
      exact hattempt h

/-- All that is signed while a request is sent is this request. -/
theorem eq_of_signed_mem_execute {r q : Request} {signature : Except Failure Request} {s : σ}
    (h : .signed q signature ∈ (execute settings transport.recorded r (s, [])).2.2) : q = r := by
  by_cases hr : r.replayable = true
  · obtain ⟨c, -, s', -, hrecorded⟩ := exists_course settings transport hr s []
    rw [hrecorded, List.nil_append] at h
    exact eq_of_signed_mem_events settings h
  · rw [execute, if_neg hr] at h
    cases h

namespace QueryService

section Calls

variable {σ : Type} (q : QueryService σ)

/-- An operation whose request can be built is a request that is sent. -/
theorem snd_callText {operation body : String} {r : Request}
    (h : q.transport.build (q.request operation body) = .ok r) (s : σ) :
    (q.callText operation body s).2 = (execute q.settings q.transport r s).2 := by
  simp only [callText, h]
  rcases execute q.settings q.transport r s with ⟨_ | _, _⟩ <;> rfl

theorem snd_call {α : Type} (operation body : String) (read : Json.Value → Option α) (s : σ) :
    (q.call operation body read s).2 = (q.callText operation body s).2 := by
  unfold call
  rcases q.callText operation body s with ⟨_ | text, s'⟩
  · rfl
  · dsimp only
    cases (Json.parse text).bind read <;> rfl

end Calls

variable (q : QueryService σ)

/-- While an operation is called, only the request for it is signed. -/
theorem build_of_signed_mem {operation body : String} {r : Request}
    {signature : Except Failure Request} {s : σ}
    (h : .signed r signature ∈ (q.recorded.callText operation body (s, [])).2.2) :
    q.transport.build (q.request operation body) = .ok r := by
  cases hr : q.transport.build (q.request operation body) with
  | error reason =>
    have hr' : q.recorded.transport.build (q.recorded.request operation body) = .error reason := hr
    simp only [callText, hr'] at h
    cases h
  | ok request =>
    rw [q.recorded.snd_callText hr] at h
    rw [eq_of_signed_mem_execute q.settings q.transport h]

/-- The token of a submission: its own, or one that was never used. -/
def tokenFor (x : Submission) (s : σ) : String := x.token.getD (q.newToken s).1

/-- To submit a query is to call an operation with its token. -/
theorem exists_snd_submit (x : Submission) (s : σ) :
    ∃ s', (q.recorded.submit x (s, [])).2 =
      (q.recorded.callText "StartQueryExecution"
        (Message.StartRequest.ofSubmission x (q.tokenFor x s)).write (s', [])).2 := by
  have hnew : q.recorded.newToken (s, []) = ((q.newToken s).1, (q.newToken s).2, []) := rfl
  unfold submit
  cases htoken : x.token with
  | some token => exact ⟨s, by simp only [htoken, snd_call, tokenFor, Option.getD_some]⟩
  | none =>
    exact ⟨(q.newToken s).2, by simp only [htoken, hnew, snd_call, tokenFor, Option.getD_none]⟩

/-- While a query is submitted, only the request with its token is signed. -/
theorem build_of_signed_mem_submit {x : Submission} {r : Request}
    {signature : Except Failure Request} {s : σ}
    (h : .signed r signature ∈ (q.recorded.submit x (s, [])).2.2) :
    q.transport.build (q.request "StartQueryExecution"
      (Message.StartRequest.ofSubmission x (q.tokenFor x s)).write) = .ok r := by
  obtain ⟨s', hsubmit⟩ := q.exists_snd_submit x s
  rw [hsubmit] at h
  exact q.build_of_signed_mem h

end QueryService

/-! ### Requests and submissions -/

/-- A request that is built has the body of its draft. -/
def Transport.KeepsBodies (t : Transport σ) : Prop :=
  ∀ draft r, t.build draft = .ok r → r.body = draft.body

/-- A request that can be sent again is signed anew for every attempt, and what is sent in an
attempt is what its own signature gave. Attempts go on while what stopped them may pass and retries
are left: the last is the first whose outcome is there to stay, or the one behind the last retry,
and its outcome is reported. A signature that is refused ends the attempts at once, with nothing
sent. A request that cannot be sent again is not sent at all. All attempts to submit a query carry
one token, provided that requests are built with the bodies of their drafts. -/
theorem execute_attempts (settings : Settings.Transport) (transport : Transport σ) (s : σ) :
    (∀ r : Request, r.replayable = true →
      ∃ (c : Course) (result : Except Failure Response) (s' : σ),
        execute settings transport r s = (result, s') ∧
        execute settings transport.recorded r (s, []) = (result, s', c.events settings r 1) ∧
        c.repeated.length ≤ settings.maxRetries.toNat ∧
        (∀ a ∈ c.repeated, a.outcome.MayPass) ∧
        (∀ e, c.ending = .unsigned e → result = .error e) ∧
        ∀ a, c.ending = .attempt a → a.outcome.ComesTo result ∧
          (a.outcome.MayPass → c.repeated.length = settings.maxRetries.toNat)) ∧
    (∀ r : Request, r.replayable = false →
      ∃ e : Failure, e.kind = .invalidArgument ∧
        execute settings transport.recorded r (s, []) = (.error e, s, [])) ∧
    (transport.KeepsBodies → ∀ (endpoint : String) (newToken : σ → String × σ) (x : Submission),
      ∃ token, (∀ own, x.token = some own → token = own) ∧ ∀ r signature,
        .signed r signature ∈
          ((QueryService.mk settings transport endpoint newToken).recorded.submit x (s, [])).2.2 →
        r.body = some (Message.StartRequest.ofSubmission x token).write) := by
  refine ⟨fun r hr => ?_, fun r hr => ?_, fun hbodies endpoint newToken x => ?_⟩
  · obtain ⟨c, hfits, s', hplain, hrecorded⟩ := exists_course settings transport hr s []
    refine ⟨c, _, s', hplain, hrecorded, hfits.length_le, fun a ha => ?_, fun e he => ?_,
      fun a ha => ⟨?_, fun hpass => ?_⟩⟩
    · exact (isSome_retryReason?_iff a.outcome).1 (hfits.reason a ha)
    · rw [Course.result, he]
    · rw [Course.result, ha]
      exact comesTo_conclude ..
    · exact hfits.last a ha ((isSome_retryReason?_iff a.outcome).2 hpass)
  · refine ⟨.invalidArgument "Request body cannot be replayed for retries", rfl, ?_⟩
    rw [execute, hr]
    rfl
  · refine ⟨QueryService.tokenFor ⟨settings, transport, endpoint, newToken⟩ x s, ?_, ?_⟩
    · intro own hown
      rw [QueryService.tokenFor, hown]
      rfl
    · intro r signature h
      exact hbodies _ r (QueryService.build_of_signed_mem_submit _ h)

/-- A request, with its signature number `n` if there is one. -/
def pageRequest (n : Option String) : Request where
  method := .get
  url := "http://localhost/page"
  headers := (n.map fun n => ("authorization", n)).toList

/-- Signs with the number of the signature. The first request that is sent is answered with status
503, and all others are served. -/
def busyOnce : Transport Nat where
  build := .ok
  sign r n := (.ok { r with headers := r.headers ++ [("authorization", n.repr)] }, n + 1)
  send _ n := (.response { status := if n = 1 then 503 else 200 }, n)
  pause _ n := n

/-- A query under a token of its own. -/
def tokenQuery : Submission := { query := "SELECT 1", token := some "token-1" }

/-- The service behind this transport. -/
def busyService : QueryService Nat where
  settings := { maxRetries := 1 }
  transport := busyOnce
  endpoint := "http://localhost"
  newToken n := (n.repr, n)

/-- The second attempt at a request carries the second signature alone, and all attempts to submit a
query carry its token. -/
theorem execute_attempts_twice : (pageRequest none).replayable = true ∧ busyOnce.KeepsBodies ∧
    (∃ c : Course, c.repeated.length ≤ 1 ∧ c.events { maxRetries := 1 } (pageRequest none) 1 =
      [.signed (pageRequest none) (.ok (pageRequest "0")),
        .sent (pageRequest "0") (.response { status := 503 }),
        .paused (.ofMillis 1500),
        .signed (pageRequest none) (.ok (pageRequest "1")),
        .sent (pageRequest "1") (.response { status := 200 })]) ∧
    ∀ r signature, .signed r signature ∈ (busyService.recorded.submit tokenQuery (0, [])).2.2 →
      r.body = some (Message.StartRequest.ofSubmission tokenQuery "token-1").write := by
  have hkeeps : busyOnce.KeepsBodies := by
    rintro draft r ⟨⟩
    rfl
  have h := execute_attempts { maxRetries := 1 } busyOnce 0
  refine ⟨rfl, hkeeps, ?_, ?_⟩
  · obtain ⟨c, result, s', -, hrecorded, hle, -⟩ := h.1 (pageRequest none) rfl
    have hevents : (execute { maxRetries := 1 } busyOnce.recorded (pageRequest none)
        (0, [])).2.2 = c.events { maxRetries := 1 } (pageRequest none) 1 := by rw [hrecorded]
    exact ⟨c, hle, hevents.symm⟩
  · obtain ⟨token, htoken, hbody⟩ :=
      h.2.2 hkeeps "http://localhost" (fun n => (n.repr, n)) tokenQuery
    cases htoken "token-1" rfl
    exact hbody

end QueryResults.Http
