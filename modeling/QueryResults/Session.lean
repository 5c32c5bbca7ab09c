import QueryResults.Cursor
import QueryResults.Polling

/-!
# Sessions

A session submits queries, waits for them to end, and opens their results. Every wait and every
cursor it opens gets a token below the root of the interrupts, so interrupting everything reaches
what has begun and nothing that begins later. A query whose wait is interrupted is stopped.

## Main definitions

* `Session`: the settings of a session.
* `Session.submit`, `Session.wait`, `Session.execute`.
* `Session.Wait`, `Session.step`: a wait, step by step.
* `Session.openResult`, `Session.openDetached`.
-/

namespace QueryResults

/-- The settings of a session. -/
structure Session where
  pacing : Pacing := .standard
  defaults : Submission.Defaults := {}
  reading : Settings.Reading := {}
  download : Settings.Download := {}
  deriving DecidableEq, Repr

/-- A wait for the end of a query. -/
structure Session.Wait where
  handle : Handle
  token : Token
  /-- How many checks have found the query running. -/
  attempt : Nat := 0
  /-- Whether the wait is between two checks. -/
  paused : Bool := false
  deriving DecidableEq, Repr

/-- What a step of a wait has come to. No status means that the wait was interrupted. -/
inductive Session.Wait.Progress where
  | goesOn (wait : Wait)
  | ended (result : Except Failure (Option Execution.Status))

namespace Session

/-- The session that all settings together describe. -/
def ofSettings (s : Settings) : Session :=
  { pacing := s.polling, defaults := s.query, reading := s.reading, download := s.download }

variable {σ : Type} (connections : Connections σ)

/-- Submits a query, with the defaults where it leaves a setting open. -/
def submit (session : Session) (s : Submission) (w : World σ) : Except Failure Handle × World σ :=
  connections.service.submit (s.withDefaults session.defaults) w

/-- Begins to wait for a query, under a new token. -/
def beginWait (handle : Handle) (w : World σ) : Wait × World σ :=
  let (token, w) := w.token Interrupts.operation
  ({ handle, token }, w)

/-- One step of a wait: a check, or the end of the pause after one. A pause is cut short by the
token; the query is then stopped, and whether it could be stopped does not count. -/
def step (session : Session) (wait : Wait) (w : World σ) : Wait.Progress × World σ :=
  if wait.paused then
    if w.isCancelled wait.token then
      (.ended (.ok none), (connections.service.stop wait.handle w).2)
    else (.goesOn { wait with attempt := wait.attempt + 1, paused := false }, w)
  else
    let (status, w) := connections.service.status wait.handle w
    match Polling.judge session.pacing wait.attempt (status.map Execution.Status.outcome) with
    | .finish result => (.ended (result.map some), w)
    | .wait _ => (.goesOn { wait with paused := true }, w)

/-- Goes on with a wait until it ends. There is no answer if `limit` steps do not suffice. -/
def finishWait (session : Session) : (limit : Nat) → Wait → World σ →
    Option (Except Failure (Option Execution.Status) × World σ)
  | 0, _, _ => none
  | limit + 1, wait, w =>
    match session.step connections wait w with
    | (.ended result, w) => some (result, w)
    | (.goesOn wait, w) => finishWait session limit wait w

/-- Waits until a query has succeeded. If the wait is interrupted, there is no status. -/
def wait (limit : Nat) (session : Session) (handle : Handle) (w : World σ) :
    Option (Except Failure (Option Execution.Status) × World σ) :=
  let (wait, w) := beginWait handle w
  session.finishWait connections limit wait w

/-- Submits a query and waits for it. -/
def execute (limit : Nat) (session : Session) (s : Submission) (w : World σ) :
    Option (Except Failure (Option Execution.Status) × World σ) :=
  match session.submit connections s w with
  | (.error e, w) => some (.error e, w)
  | (.ok handle, w) => session.wait connections limit handle w

/-- A cursor over the result of a query, with the given token. -/
def cursor (session : Session) (status : Execution.Status) (token : Token) :
    Except Failure Cursor :=
  Cursor.ofStatus session.reading session.download connections.store.isSome status token

/-- Opens the result of a query. -/
def openResult (session : Session) (status : Execution.Status) (w : World σ) :
    Except Failure Cursor × World σ :=
  let (token, w) := w.token Interrupts.operation
  (session.cursor connections status token, w)

/-- Opens the result of a query with a token that stands below no other. -/
def openDetached (session : Session) (status : Execution.Status) (w : World σ) :
    Except Failure Cursor × World σ :=
  let (token, w) := w.token Interrupts.fresh
  (session.cursor connections status token, w)

end Session

end QueryResults
