import QueryResults.Download.Fetcher
import QueryResults.Feed

/-!
# Readers of objects

A reader hands out the bytes of one object to a caller that waits for them. It keeps a queue of
received chunks and grants its transfer demand for more when fewer bytes are queued than the low
watermark and nothing that was granted is still to come.

When a transfer fails after the store has answered, the reader drops what is queued and starts a new
one at the position of the caller, under the tag it has learned, as long as retries are left. Its
transfers do not resume by themselves. A download that has failed for good fails again, with the
same kind and message, at every later read; the end of the data is never reported after a failure.

A read waits at most for the read timeout, which passes exactly when the transfer has come to rest
without a signal. It then changes nothing, and can be repeated.

## Main definitions

* `Reader`, `Reader.ofLocation`.
* `Reader.replenish`, `Reader.resume`: granting demand, and starting again after a failure.
* `Reader.fill`: waits for one signal.
* `Reader.take`: hands out queued bytes.
-/

namespace QueryResults.Download

/-- The reader of one object. -/
structure Reader where
  location : Location
  settings : Settings.Download
  transfer : Option Transfer := none
  /-- The chunks received and not yet handed out. -/
  queue : List (List UInt8) := []
  queuedBytes : Nat := 0
  /-- How many bytes were handed out. -/
  position : UInt64 := 0
  /-- Chunks granted to the transfer and not yet received. -/
  outstanding : Nat := 0
  etag : Option String := none
  /-- Whether the store has answered; before that nothing is resumed. -/
  responded : Bool := false
  retriesLeft : Nat
  failures : List Failure := []
  finished : Bool := false
  /-- What every later read reports. -/
  failed : Option Failure := none
  deriving Repr

namespace Reader

/-- A reader that has not begun. -/
def ofLocation (location : Location) (settings : Settings.Download) : Reader :=
  { location, settings, retriesLeft := settings.maxRetries.toNat }

/-- How many chunks are granted at a time. -/
def batch (r : Reader) : Nat := max r.settings.chunkBuffer.toNat 1

/-- Starts a transfer at the position of the caller. -/
def restart (r : Reader) : Reader :=
  let fetcher := (Fetcher.ofSettings r.location r.settings).withRetries 0
  { r with transfer := some (.start fetcher.plan r.position r.etag), outstanding := 0 }

/-- Grants more chunks if there is too little in the queue and nothing is to come. -/
def replenish (r : Reader) : Reader :=
  if r.finished ∨ r.failed.isSome ∨ 0 < r.outstanding then r
  else if r.settings.lowWatermark.toNat ≤ r.queuedBytes ∧ r.queue ≠ [] then r
  else
    let r := if r.transfer.isNone then r.restart else r
    match r.transfer with
    | some t => { r with transfer := some (t.grant (.ofNat r.batch)), outstanding := r.batch }
    | none => r

/-- Takes note of what a transfer has learned from the store. -/
def observe (r : Reader) (t : Transfer) : Reader :=
  { r with
    responded := r.responded || t.progress.responded
    etag := r.etag <|> t.progress.etag }

/-- What has become of waiting for a signal. -/
inductive Filled (ρ : Type) where
  /-- There are bytes to hand out, or the end is reached. -/
  | ready (r : ρ)
  /-- The transfer failed, and another has taken its place. -/
  | restarted (r : ρ)
  | failed (e : Failure) (r : ρ)

/-- The reader that is left after waiting. -/
def Filled.reader {ρ : Type} : Filled ρ → ρ
  | ready r | restarted r | failed _ r => r

/-- Gives up, or starts again at the position of the caller. -/
def resume (r : Reader) (e : Failure) : Filled Reader :=
  let cleared := { r with transfer := none, queue := [], queuedBytes := 0 }
  if r.responded = false ∨ e.kind = .preconditionFailed ∨ r.retriesLeft = 0 then
    .failed (e.withSuppressed r.failures)
      { cleared with failures := [], failed := some e.repeated }
  else
    .restarted
      { cleared with
        retriesLeft := r.retriesLeft - 1
        failures := r.failures ++ [e] }.restart

/-- Takes the next thing that comes from the transfer into account. -/
def receive (r : Reader) : Transfer.Receipt → Filled Reader
  | .notYet =>
    let location := r.location
    let limit := r.settings.readTimeout.text
    .failed (.timeout s!"No data from {location} within {limit}") r
  | .over =>
    let location := r.location
    r.resume (.io s!"Download of {location} stopped without a terminal signal")
  | .signal (.failed e) => r.resume e
  | .signal .complete => .ready { r with finished := true, transfer := none }
  | .signal (.chunk bytes) =>
    .ready
      { r with
        outstanding := r.outstanding - 1
        queuedBytes := r.queuedBytes + bytes.length
        queue := r.queue ++ [bytes] }

/-- Takes the next signal of a transfer at rest. A wait that times out learns nothing about the
store. -/
def hear (r : Reader) (t : Transfer) : Filled Reader :=
  match t.next with
  | (.notYet, t) => { r with transfer := some t }.receive .notYet
  | (x, t) => ({ r with transfer := some t }.observe t).receive x

/-- Waits for one signal. -/
def listen {σ : Type} (store : Store σ) (r : Reader) (s : σ) : Filled Reader × σ :=
  match r.transfer with
  | none => (r.receive .over, s)
  | some t => (r.hear (t.settle store s).1, (t.settle store s).2)

/-- Grants more chunks if there are too few, and waits for one signal. -/
def fill {σ : Type} (store : Store σ) (r : Reader) (s : σ) : Filled Reader × σ :=
  r.replenish.listen store s

/-- The bytes that can be handed out at once. -/
def front (r : Reader) : List UInt8 := r.queue.head?.getD []

/-- The reader once `n` bytes of its first chunk are handed out, or all of the chunk. -/
def advance (r : Reader) (n : Nat) : Reader :=
  let left := r.front.drop n
  let size := min n r.front.length
  { r with
    queue := if left.isEmpty then r.queue.tail else left :: r.queue.tail
    queuedBytes := r.queuedBytes - size
    position := r.position + UInt64.ofNat size }

/-- Hands out at most `n` bytes of the first chunk in the queue. -/
def take (r : Reader) (n : Nat) : List UInt8 × Reader :=
  (r.front.take n, (r.advance n).replenish)

end Reader

end QueryResults.Download
