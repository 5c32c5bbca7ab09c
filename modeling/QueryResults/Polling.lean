import QueryResults.Failure
import QueryResults.Pacing
import QueryResults.Timer

/-!
# Polling until a query has ended

A query is checked again and again, with the waits of a `Pacing` between the checks, until a check
reports an end. Only "not finished yet" is repeated; a failure of the check itself ends the polling
unchanged. A poll that is cancelled while it waits ends without a result.

`judge` is the decision taken after one check; everything that polls goes through it. `run` is a
whole poll on a clock on which a check takes no time and a wait takes as long as a timer says.

At time zero a token is cancelled before the poll starts. At every later moment the poll comes
first: a token cancelled at the moment at which a wait ends leaves that wait whole, the check after
it is made, and only the next wait is cut short.

## Main definitions

* `Polling.Outcome`: what a check can report.
* `Polling.judge`: wait a given span, or end with a result.
* `Polling.Cancellation`: when a poll is cancelled.
* `Polling.run`: the checks made by a poll, when they were made, and how it ended.
* `Polling.Run.tokenCancelled`: whether the token is cancelled when a poll has ended.
-/

namespace QueryResults.Polling

/-- What one check reports. -/
inductive Outcome (α : Type) where
  /-- Not finished yet. -/
  | pending
  /-- Finished, with a value. -/
  | completed (value : α)
  /-- Finished in a failed state, for a reason given by the service. -/
  | failed (reason : String)
  /-- Cancelled by someone, for a reason given by the service. -/
  | canceled (reason : String)
  deriving DecidableEq, Repr

/-- What a poll does after a check. -/
inductive Verdict (α : Type) where
  /-- Wait for a span and check again. -/
  | wait (span : Duration)
  /-- End with a value or a failure. -/
  | finish (result : Except Failure α)

/-- The verdict on the check numbered `attempt`, counted from zero. The message of a failed or
cancelled query is exactly the reason the check reported. -/
def judge {α : Type} (pacing : Pacing) (attempt : Nat) :
    Except Failure (Outcome α) → Verdict α
  | .ok .pending => .wait (pacing.delay attempt)
  | .ok (.completed value) => .finish (.ok value)
  | .ok (.failed reason) => .finish (.error (.queryFailed reason))
  | .ok (.canceled reason) => .finish (.error (.queryCanceled reason))
  | .error e => .finish (.error e)

/-- When the token of a poll is cancelled: at the earlier of two moments, each of which may be
missing. A token cancelled at time zero is cancelled before the first check. -/
structure Cancellation where
  /-- While the check of this number is made, counted from zero. -/
  duringCheck : Option Nat := none
  /-- At this moment, counted from the start of the poll. -/
  atTime : Option Duration := none
  deriving DecidableEq, Repr

namespace Cancellation

/-- The token is never cancelled. -/
def never : Cancellation := {}

/-- The token is cancelled before the poll starts. -/
def beforeStart : Cancellation := { atTime := some .zero }

/-- Whether the token is cancelled when the check numbered `attempt` has been made, whatever the
clock says by then. -/
def precedes (c : Cancellation) (attempt : Nat) : Bool :=
  c.duringCheck.any (· ≤ attempt) || c.atTime.any (·.nanos = 0)

/-- The moment at which a wait from `now` to `wakes`, begun after the check numbered `attempt`, is
cut short, if it is. A token that is already cancelled cuts the wait short at once; one that is
cancelled when the wait is over does not cut it short. -/
def cut (c : Cancellation) (attempt : Nat) (now wakes : Duration) : Option Duration :=
  if c.precedes attempt then some now
  else
    (c.atTime.filter (·.nanos < wakes.nanos)).map fun moment => ⟨max now.nanos moment.nanos⟩

end Cancellation

/-- A finished poll: when its checks were made, when it ended, and how. No value means that it was
cancelled. -/
structure Run (α : Type) where
  checkedAt : List Duration
  endedAt : Duration
  result : Except Failure (Option α)

/-- Whether the poll was cancelled while it waited. -/
def Run.interrupted {α : Type} (run : Run α) : Bool :=
  match run.result with
  | .ok none => true
  | _ => false

/-- Whether the token of a poll is cancelled when the poll has ended. A poll that ends with a check
made at the moment of the cancellation ends first, unless that is the moment of its start. -/
def Run.tokenCancelled {α : Type} (run : Run α) (c : Cancellation) : Bool :=
  run.interrupted || c.precedes (run.checkedAt.length - 1) ||
    c.atTime.any (·.nanos < run.endedAt.nanos)

/-- A poll from the check numbered `attempt` on, made at `now`. Check `k` reports `checks k`. The
poll is followed for at most `limit` checks. -/
def runFrom {α : Type} (timer : Timer) (pacing : Pacing)
    (checks : Nat → Except Failure (Outcome α)) (cancellation : Cancellation) :
    Nat → Nat → Duration → Option (Run α)
  | 0, _, _ => none
  | limit + 1, attempt, now =>
    match judge pacing attempt (checks attempt) with
    | .finish result =>
      some { checkedAt := [now], endedAt := now, result := result.map some }
    | .wait span =>
      let wakes : Duration := ⟨now.nanos + (timer.lasts span).nanos⟩
      match cancellation.cut attempt now wakes with
      | some moment => some { checkedAt := [now], endedAt := moment, result := .ok none }
      | none =>
        (runFrom timer pacing checks cancellation limit (attempt + 1) wakes).map
          fun rest => { rest with checkedAt := now :: rest.checkedAt }

/-- A poll that starts at time zero, followed for at most `limit` checks. -/
def run {α : Type} (timer : Timer) (pacing : Pacing)
    (checks : Nat → Except Failure (Outcome α)) (cancellation : Cancellation) (limit : Nat) :
    Option (Run α) :=
  runFrom timer pacing checks cancellation limit 0 .zero

end QueryResults.Polling
