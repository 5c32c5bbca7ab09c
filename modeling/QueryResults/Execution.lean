import QueryResults.Failure
import QueryResults.Polling

/-!
# Executions of a query

A submitted query is known by its handle and passes through the states of `Execution.State`. A
status is a snapshot of one execution; `Execution.Status.outcome` says what it means for a poll.

## Main definitions

* `Handle`, `Execution.State`, `Execution.Status`.
* `Execution.Status.outcome`, `Execution.Status.requireSucceeded`.
* `Submission`: what is sent to start a query; `Submission.withDefaults` fills what it leaves open.
-/

namespace QueryResults

/-- The opaque name the service gives to a submitted query. -/
abbrev Handle := String

/-- The states of an execution. -/
inductive Execution.State where
  | queued
  | running
  | succeeded
  | failed
  | cancelled
  deriving DecidableEq, Repr

/-- The final states. -/
def Execution.State.isTerminal : Execution.State → Bool
  | .queued | .running => false
  | .succeeded | .failed | .cancelled => true

/-- A snapshot of one execution. -/
structure Execution.Status where
  handle : Handle
  state : Execution.State
  /-- Why the query failed or was cancelled, in the words of the service. -/
  reason : Option String := none
  /-- Where the service wrote the result. -/
  output : Option String := none
  deriving DecidableEq, Repr

namespace Execution.Status

/-- What a status means for a poll that waits for the end of the query. -/
def outcome (s : Status) : Polling.Outcome Status :=
  match s.state with
  | .queued | .running => .pending
  | .succeeded => .completed s
  | .failed => .failed (s.reason.getD "")
  | .cancelled => .canceled (s.reason.getD "")

/-- Refuses the status of a query that has no result to read. -/
def requireSucceeded (s : Status) : Except Failure Unit :=
  match s.state with
  | .succeeded => .ok ()
  | .queued | .running =>
    .error (.invalidState
      ("Query " ++ s.handle ++ " is still executing. Poll for completion first."))
  | .failed => .error (.queryFailed (s.reason.getD ""))
  | .cancelled => .error (.queryCanceled (s.reason.getD ""))

/-- A poll goes on exactly while the state is not final. -/
theorem outcome_eq_pending_iff (s : Status) :
    s.outcome = .pending ↔ s.state.isTerminal = false := by
  cases h : s.state <;> simp [outcome, State.isTerminal, h]

end Execution.Status

/-- What is sent to start a query. -/
structure Submission where
  query : String
  database : Option String := none
  workgroup : Option String := none
  /-- Where the service is to write the result. -/
  output : Option String := none
  /-- Makes a repeated submission count once. -/
  token : Option String := none
  deriving DecidableEq, Repr

/-- What is used where a submission leaves a setting open. -/
structure Submission.Defaults where
  database : Option String := none
  workgroup : Option String := none
  output : Option String := none
  deriving DecidableEq, Repr

/-- Fills the settings that a submission leaves open. -/
def Submission.withDefaults (s : Submission) (d : Submission.Defaults) : Submission :=
  { s with
    database := s.database <|> d.database
    workgroup := s.workgroup <|> d.workgroup
    output := s.output <|> d.output }

end QueryResults
