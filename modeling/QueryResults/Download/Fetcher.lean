import QueryResults.Download.Clock
import QueryResults.Settings.Basic

/-!
# Fetchers

A fetcher is a download that is described and not yet begun. It gives rise to one transfer only:
asking for a second one is refused and leaves the first untouched.

Whoever wants the whole object may wait for it without a limit, or for a limited time only and ready
to stop at any moment. A wait that is given up drops the transfer: nothing more is asked of the
store. The wait is looked at before the transfer starts and each time the transfer rests; if it is
given up while a request is out or a body is read, the store has left the request without an answer
or let the body stall.

## Main definitions

* `Fetcher`, `Fetcher.subscribe`.
* `Fetcher.fetchAll`: the whole object at once.
* `Fetcher.fetchWithin`: the whole object, unless the wait for it is given up.
-/

namespace QueryResults.Download

/-- What came of collecting all chunks of a transfer: the bytes or the failure it ended with,
nothing if the transfer stalled, and the time that passed. -/
structure Collected where
  result : Option (Except Failure (List UInt8))
  span : Duration

/-- Receives all that is left of a transfer at rest, with one more chunk granted for every chunk
received. `before` holds the chunks received so far, the last one first. -/
def Transfer.collect {σ : Type} (store : Store σ) (before : List (List UInt8)) (t : Transfer)
    (s : σ) : Collected × σ :=
  match _h : t.next with
  | (.signal (.chunk bytes), t') =>
    let rested := (t'.grant 1).settle store s
    collect store (bytes :: before) rested.1 rested.2
  | (.signal .complete, _) => (⟨some (.ok before.reverse.flatten), .zero⟩, s)
  | (.signal (.failed e), _) => (⟨some (.error e), .zero⟩, s)
  | (.over, _) =>
    let location := t.plan.location
    (⟨some (.error (.io s!"Fetch of {location} ended without completing")), .zero⟩, s)
  | (.notYet, _) =>
    match _hp : t.pauseLeft with
    | none => (⟨none, .zero⟩, s)
    | some left =>
      let woken := t.wake store s
      let rest := collect store before woken.1 woken.2
      ({ rest.1 with span := ⟨left.nanos + rest.1.span.nanos⟩ }, rest.2)
termination_by less_wf.wrap t
decreasing_by
  · exact (less_of_next _h).settle_grant 1 store s
  · exact .of_smaller (wake_smaller store s _hp)

/-- What becomes of waiting for a whole download. -/
inductive Loaded where
  | received (result : Except Failure (List UInt8))
  | interrupted
  | timedOut
  deriving Repr

/-- Looks at a download again that is waited for. The wait is given up if it is to be stopped, or if
it has taken longer than its limit; otherwise this is what is left of the limit. -/
def look {σ : Type} (store : Store σ) (stops : σ → Bool) (limit : Duration) (s : σ) :
    Except Loaded Duration × σ :=
  let (span, s) := store.lapse s
  if stops s then (.error .interrupted, s)
  else if limit.nanos < span.nanos then (.error .timedOut, s)
  else (.ok ⟨limit.nanos - span.nanos⟩, s)

/-- Receives all that is left of a transfer at rest as `Transfer.collect` does, but gives up where
the limit ends or the wait is to be stopped. -/
def Transfer.gather {σ : Type} (store : Store σ) (stops : σ → Bool) (limit : Duration)
    (before : List (List UInt8)) (t : Transfer) (s : σ) : Loaded × σ :=
  match look store stops limit s with
  | (.error cut, s) => (cut, s)
  | (.ok limit, s) =>
    match _h : t.next with
    | (.signal (.chunk bytes), t') =>
      let rested := (t'.grant 1).settle store s
      gather store stops limit (bytes :: before) rested.1 rested.2
    | (.signal .complete, _) => (.received (.ok before.reverse.flatten), s)
    | (.signal (.failed e), _) => (.received (.error e), s)
    | (.over, _) =>
      let location := t.plan.location
      (.received (.error (.io s!"Fetch of {location} ended without completing")), s)
    | (.notYet, _) =>
      match _hp : t.pauseLeft with
      | none => (.timedOut, s)
      | some left =>
        if limit.nanos ≤ left.nanos then (.timedOut, s)
        else
          let woken := t.wake store s
          gather store stops ⟨limit.nanos - left.nanos⟩ before woken.1 woken.2
termination_by less_wf.wrap t
decreasing_by
  · exact (less_of_next _h).settle_grant 1 store s
  · exact .of_smaller (wake_smaller store s _hp)

/-- A download that is not yet begun. -/
structure Fetcher where
  plan : Transfer.Plan
  /-- Where the download starts. -/
  offset : UInt64 := 0
  /-- The tag the object must carry. -/
  etag : Option String := none
  subscribed : Bool := false
  deriving DecidableEq, Repr

namespace Fetcher

/-- The download of an object under given settings. The channel holds one signal at least. -/
def ofSettings (location : Location) (settings : Settings.Download) : Fetcher where
  plan :=
    { location
      maxRetries := settings.maxRetries.toNat
      retryDelay := settings.retryDelay
      capacity := max settings.chunkBuffer.toNat 1 }

/-- The same download with another number of retries. -/
def withRetries (f : Fetcher) (n : UInt32) : Fetcher :=
  { f with plan := { f.plan with maxRetries := n.toNat } }

/-- The rest of an earlier download of the object that carried the tag. -/
def resumeFrom (f : Fetcher) (offset : UInt64) (etag : Option String) : Fetcher :=
  { f with offset, etag }

/-- Starts the transfer. -/
def subscribe (f : Fetcher) : Except Failure Transfer × Fetcher :=
  if f.subscribed then
    let location := f.plan.location
    (.error (.invalidState s!"Fetch of {location} already has a subscriber"), f)
  else (.ok (.start f.plan f.offset f.etag), { f with subscribed := true })

/-- Starts the transfer and receives the whole object. -/
def fetchAll {σ : Type} (store : Store σ) (f : Fetcher) (s : σ) : Collected × Fetcher × σ :=
  match f.subscribe with
  | (.error e, f) => (⟨some (.error e), .zero⟩, f, s)
  | (.ok t, f) =>
    let (t, s) := (t.grant (.ofNat f.plan.capacity)).settle store s
    let (collected, s) := t.collect store [] s
    (collected, f, s)

/-- Starts the transfer and receives the whole object, unless the wait is given up before. -/
def fetchWithin {σ : Type} (store : Store σ) (stops : σ → Bool) (limit : Duration) (f : Fetcher)
    (s : σ) : Loaded × Fetcher × σ :=
  match look store stops limit s with
  | (.error cut, s) => (cut, f, s)
  | (.ok limit, s) =>
    match f.subscribe with
    | (.error e, f) => (.received (.error e), f, s)
    | (.ok t, f) =>
      let (t, s) := (t.grant (.ofNat f.plan.capacity)).settle store s
      let (loaded, s) := t.gather store stops limit [] s
      (loaded, f, s)

end Fetcher

end QueryResults.Download
