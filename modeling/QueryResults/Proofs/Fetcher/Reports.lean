import QueryResults.Proofs.Fetcher.Version

/-!
# Reports of failed attempts

Every attempt of a download that fails is reported by one failure. It keeps the kind of what went
wrong, and it tells the offset that the download had reached when it happened: the offset it started
at and the bytes handed over since. A failure that a download ends with *accounts* for all attempts:
it is the one of the last attempt and carries those of all earlier ones, each once and in order.

## Main definitions

* `Exchange.FailsAt`: how an exchange fails, as the failure that is reported.
* `Transfer.Reported`: the failures of all attempts in a list of events.
* `Transfer.Accounts`: a failure that accounts for all attempts.

## Main results

* `Exchange.FailsAt.exists_message`: every failure names the offset reached.
* `Reported.length`: there is one failure for each request.
-/

namespace QueryResults

/-- A failure that has taken others along, without them. -/
theorem Failure.eq_of_withSuppressed {e : Failure} (h : e.suppressed = []) (l : List Failure) :
    { e.withSuppressed l with suppressed := [] } = e := by
  cases e
  cases h
  rfl

namespace Store.Exchange

variable {x : Exchange} {reached : UInt64} {finish : Option Nat} {e : Failure}

/-- How an exchange fails once an offset is reached, where the object may have been declared to end
at `finish`: the request is refused, another tag comes back, the body breaks off, or it ends too
early. The failure keeps its kind, but for the last one, which is a failure of transport. -/
inductive FailsAt (x : Exchange) (reached : UInt64) (finish : Option Nat) : Failure → Prop
  | refused {e : Failure} (ha : x.answer = .failure e) :
      FailsAt x reached finish (x.located reached e)
  | changed {r : Response} {expected actual : String} (ha : x.answer = .response r)
      (hq : x.request.ifMatch = some expected) (hr : r.etag = some actual)
      (hne : expected ≠ actual) :
      FailsAt x reached finish
        (x.located reached (.preconditionFailed s!"ETag changed from {expected} to {actual}"))
  | brokenOff {taken : List (List UInt8)} {e : Failure} (hb : x.BreaksOff taken e) :
      FailsAt x reached finish (x.located reached e)
  | cutShort {r : Response} {taken : List (List UInt8)} {location : Location} {last : Nat}
      (ha : x.accepted = some r) (hb : r.body = taken.map .chunk)
      (hl : location = x.request.location) (hf : finish = some last) (hlt : reached.toNat < last) :
      FailsAt x reached finish (.io s!"Body of {location} ended at offset {reached} of {last}")

namespace FailsAt

theorem suppressed (h : x.FailsAt reached finish e) : e.suppressed = [] := by cases h <;> rfl

/-- Every failure names the offset reached. -/
theorem exists_message (h : x.FailsAt reached finish e) :
    ∃ front back, e.message = front ++ s!" at offset {reached}" ++ back := by
  have located (e : Failure) : ∃ front back,
      (x.located reached e).message = front ++ s!" at offset {reached}" ++ back :=
    ⟨s!"GET {x.request.location}", s!": {e.message}", by
      simp [located, Failure.message_inContext, String.append_assoc]⟩
  cases h with
  | refused | changed | brokenOff => exact located _
  | @cutShort r taken location last =>
    have hsplit : toString " ended at offset " = toString " ended" ++ toString " at offset " := rfl
    exact ⟨s!"Body of {location} ended", s!" of {last}", by
      simp [Failure.io, String.append_assoc, hsplit]⟩

end FailsAt

end Store.Exchange

namespace Download

open Store

variable {σ : Type} {store : Store σ}

namespace Transfer

variable {offset : UInt64} {events more : List Event} {failures : List Failure} {retries : Nat}
  {x : Exchange} {e : Failure} {t t' : Transfer} {known : Option String}

/-! ### Reports -/

/-- The failures of all attempts in a list of events, for a download that started at `offset`: each
request is followed by what the exchange has failed by, at the offset reached with all bytes handed
over until then. -/
inductive Reported (offset : UInt64) : List Event → List Failure → Prop
  | nil {events : List Event} (hnone : exchanges events = []) : Reported offset events []
  | snoc {events during : List Event} {x : Exchange} {failures : List Failure} {e : Failure}
      (h : Reported offset events failures) (hnone : exchanges during = [])
      (hx : x.FailsAt (offset + .ofNat (handedBytes (events ++ .asked x :: during)).length)
        (endAfter (exchanges (events ++ .asked x :: during))) e) :
      Reported offset (events ++ .asked x :: during) (failures ++ [e])

/-- The last attempt in a list of events is the exchange `x`, and the failures are those of all
earlier ones. -/
def Attempts (offset : UInt64) (events : List Event) (failures : List Failure) (x : Exchange) :
    Prop :=
  ∃ before during, events = before ++ .asked x :: during ∧ exchanges during = [] ∧
    Reported offset before failures

@[simp] theorem exchanges_asked_cons (x : Exchange) (events : List Event) :
    exchanges (.asked x :: events) = x :: exchanges events := rfl

/-- There is one failure for each request. -/
theorem Reported.length (h : Reported offset events failures) :
    (exchanges events).length = failures.length := by
  induction h with
  | nil hnone => rw [hnone]; rfl
  | snoc _ hnone _ ih => simp [hnone, ih]

/-- What happens besides requests and without bytes changes nothing in a report. -/
theorem Reported.append (h : Reported offset events failures) (hnone : exchanges more = [])
    (hbytes : handedBytes more = []) : Reported offset (events ++ more) failures := by
  cases h with
  | nil hno => exact .nil (by simp [hno, hnone])
  | @snoc before during x failures e h hno hx =>
    rw [List.append_assoc, List.cons_append]
    refine .snoc h (by simp [hno, hnone]) ?_
    have hsplit : before ++ .asked x :: (during ++ more) =
        before ++ .asked x :: during ++ more := by simp
    rwa [hsplit, handedBytes_append, hbytes, List.append_nil, exchanges_append, hnone,
      List.append_nil]

namespace Attempts

theorem append (h : Attempts offset events failures x) (hnone : exchanges more = []) :
    Attempts offset (events ++ more) failures x := by
  obtain ⟨before, during, rfl, hno, hr⟩ := h
  exact ⟨before, during ++ more, by simp, by simp [hno, hnone], hr⟩

theorem exchanges_eq (h : Attempts offset events failures x) :
    ∃ done, exchanges events = done ++ [x] ∧ done.length = failures.length := by
  obtain ⟨before, during, rfl, hno, hr⟩ := h
  exact ⟨exchanges before, by simp [hno], hr.length⟩

/-- The last exchange, told in another way. -/
theorem eq_of_exchanges {y : Exchange} {done : List Exchange}
    (h : Attempts offset events failures x) (hy : exchanges events = done ++ [y]) : x = y := by
  obtain ⟨done', hx, -⟩ := h.exchanges_eq
  exact (List.cons.inj (List.append_inj' (hx.symm.trans hy) rfl).2).1

theorem mem (h : Attempts offset events failures x) : x ∈ exchanges events := by
  obtain ⟨done, hx, -⟩ := h.exchanges_eq
  simp [hx]

/-- The last attempt fails as well. -/
theorem report (h : Attempts offset events failures x)
    (hx : x.FailsAt (offset + .ofNat (handedBytes events).length) (endAfter (exchanges events)) e) :
    Reported offset events (failures ++ [e]) := by
  obtain ⟨before, during, rfl, hno, hr⟩ := h
  exact .snoc hr hno hx

end Attempts

/-- A failure that accounts for all attempts in a list of events. -/
structure Accounts (offset : UInt64) (retries : Nat) (events : List Event) (e : Failure) :
    Prop where
  /-- It is the failure of the last attempt, and carries those of all earlier ones. -/
  reported : Reported offset events (e.suppressed ++ [{ e with suppressed := [] }])
  /-- If no response was accepted, there were no earlier attempts. -/
  refused : (∀ x ∈ exchanges events, x.accepted = none) → e.suppressed = []
  few : e.suppressed.length ≤ retries
  /-- Otherwise all retries were used, unless the object has changed. -/
  exhausted : (∃ x ∈ exchanges events, x.accepted ≠ none) → e.kind ≠ .preconditionFailed →
    e.suppressed.length = retries

theorem Accounts.append (h : Accounts offset retries events e) (hnone : exchanges more = [])
    (hbytes : handedBytes more = []) : Accounts offset retries (events ++ more) e := by
  have hown : exchanges (events ++ more) = exchanges events := by simp [hnone]
  exact
    { reported := h.reported.append hnone hbytes
      refused := fun hx => h.refused (hown ▸ hx)
      few := h.few
      exhausted := fun hx => h.exhausted (hown ▸ hx) }

end Transfer

end Download

end QueryResults
