import Mathlib
import QueryResults.Proofs.Http.Attempts

/-!
# Reasons of transport failures

When the last attempt at a request has no response, a failure is reported whose kind and cause are
those of this attempt. The reason in its message is another one: what stopped the attempt before the
last, where there was one, as the reason is noted when an attempt is repeated and not when the last
one fails. So the message speaks of the last attempt if there was no other, or if the one before it
was stopped by what reads the same.

## Main definitions

* `Http.Outcome.words`: what stopped an attempt, in words.
* `Http.Request.Course.namedReason`: the reason that a transport failure names.

## Main results

* `Http.execute_reason`: the kind, the cause and the message of a transport failure.
* `Http.execute_reason_stale`: a refused connection that is reported as a busy server.
-/

namespace QueryResults.Http

open Transport (Event)

open Request (Attempt Course)

variable {σ : Type}

/-- What stopped an attempt, in words: the status of its response, or the text of its fault. -/
def Outcome.words : Outcome → String
  | response r => "HTTP " ++ toString r.status
  | fault f => f.text

theorem eq_words_of_retryReason? {outcome : Outcome} {reason : String}
    (h : retryReason? outcome = some reason) : reason = outcome.words := by
  cases outcome with
  | response r =>
    rw [retryReason?] at h
    split at h
    · cases h
      rfl
    · cases h
  | fault f =>
    rw [retryReason?] at h
    split at h
    · cases h
      rfl
    · cases h

namespace Request.Course

/-- The reason that a transport failure names: what stopped the latest repeated attempt, and if none
was repeated what stopped the only one. -/
def namedReason (c : Course) (f : Fault) : String :=
  match c.repeated.getLast? with
  | some a => a.outcome.words
  | none => f.text

/-- What is noted in a course is what stopped the latest repeated attempt. -/
theorem Fits.getD_noted {c : Course} {left : Nat} (h : c.Fits left) (f : Fault) :
    (c.noted none).getD f.text = c.namedReason f := by
  unfold noted namedReason
  cases hlast : c.repeated.getLast? with
  | none => rfl
  | some a =>
    obtain ⟨reason, hreason⟩ :=
      Option.isSome_iff_exists.1 (h.reason a (List.mem_of_getLast? hlast))
    simp only [Option.map_some, Option.getD_some, hreason]
    exact eq_words_of_retryReason? hreason

/-- The reason is that of the last attempt if no other was made, or the one before it was stopped by
what reads the same. -/
theorem namedReason_eq_text_iff (c : Course) (f : Fault) :
    c.namedReason f = f.text ↔ ∀ a ∈ c.repeated.getLast?, a.outcome.words = f.text := by
  unfold namedReason
  cases c.repeated.getLast? <;> simp

end Request.Course

/-- A request that can be sent again and whose last attempt has no response comes to a failure of
this attempt's kind and with its fault for a cause, after as many attempts as were made. The reason
in its message is what stopped the attempt before the last, if there was one, and it names the fault
of the last exactly if this reads the same. -/
theorem execute_reason (settings : Settings.Transport) (transport : Transport σ) {r : Request}
    (hr : r.replayable = true) (s : σ) :
    ∃ (c : Course) (result : Except Failure Response) (s' : σ),
      execute settings transport r s = (result, s') ∧
      execute settings transport.recorded r (s, []) = (result, s', c.events settings r 1) ∧
      ∀ (a : Attempt) (f : Fault), c.ending = .attempt a → a.outcome = .fault f →
        let attempts := c.repeated.length + 1
        let reason := c.namedReason f
        result = .error
          { kind := if f.timedOut then .timeout else .io
            message := s!"HTTP request failed after {attempts} attempts: {reason}"
            cause := some (.outside f.text) } ∧
        (reason = f.text ↔ ∀ b ∈ c.repeated.getLast?, b.outcome.words = f.text) := by
  obtain ⟨c, hfits, s', hplain, hrecorded⟩ := exists_course settings transport hr s []
  refine ⟨c, _, s', hplain, hrecorded, fun a f ha hf => ⟨?_, c.namedReason_eq_text_iff f⟩⟩
  rw [Course.result, ha]
  simp only [hf, conclude, faultFailure, hfits.getD_noted]
  rw [Nat.add_comm]

/-- A connection that is refused. -/
def refusal : Fault := { text := "connection refused", unconnected := true }

/-- Answers the first request that is sent with status 503, and refuses all connections after it. -/
def busyThenRefusing : Transport Nat where
  build := .ok
  sign r n := (.ok r, n)
  send _ n := (if n = 0 then .response { status := 503 } else .fault refusal, n + 1)
  pause _ n := n

/-- The course of a request whose first attempt is answered with status 503, and whose other two are
refused. -/
def refusedTwice : Course where
  repeated := [⟨pageRequest none, .response { status := 503 }⟩, ⟨pageRequest none, .fault refusal⟩]
  ending := .attempt ⟨pageRequest none, .fault refusal⟩

/-- The second attempt and the last are refused alike, and the failure says so. -/
theorem execute_reason_thrice :
    (pageRequest none).replayable = true ∧
      (execute { maxRetries := 2 } busyThenRefusing (pageRequest none) 0).1 = .error
        { kind := .io
          message := "HTTP request failed after 3 attempts: connection refused"
          cause := some (.outside "connection refused") } := by
  refine ⟨rfl, ?_⟩
  obtain ⟨c, result, s', hplain, hrecorded, hresult⟩ :=
    execute_reason { maxRetries := 2 } busyThenRefusing (r := pageRequest none) rfl 0
  have hevents : c.events { maxRetries := 2 } (pageRequest none) 1 =
      refusedTwice.events { maxRetries := 2 } (pageRequest none) 1 := by
    have hrecord := congrArg (fun x => x.2.2) hrecorded
    exact hrecord.symm
  cases Course.eq_of_events_eq hevents
  rw [hplain]
  refine (hresult ⟨pageRequest none, .fault refusal⟩ refusal rfl rfl).1.trans ?_
  cbv

/-- Here the last attempt is refused, which decides the kind and the cause of the failure, and the
reason in its message is the status of the attempt before. -/
theorem execute_reason_stale :
    (execute { maxRetries := 1 } busyThenRefusing (pageRequest none) 0).1 = .error
      { kind := .io
        message := "HTTP request failed after 2 attempts: HTTP 503"
        cause := some (.outside "connection refused") } := by
  rfl

end QueryResults.Http
