import QueryResults.Store
import QueryResults.Timer

/-!
# Transfers

A transfer downloads one object for one consumer. It runs beside the consumer, and the two meet in
two places only: the consumer grants *demand*, counted in chunks, and the transfer puts *signals*
into a channel of bounded capacity: chunks, and at last either the completion or a failure.

The transfer touches the body only while it has demand. When a body fails after the store has
answered, the rest of the object is requested again, from the offset reached and under the tag of
the first answer, as long as retries are left; the waits before the repetitions grow in step with
their number. A changed tag ends the transfer at once. A cancelled transfer ends silently.

A transfer is a state, and `Transfer.step` is one step of its task: it asks the store, takes an item
from the body, or hands a signal over. Between any two steps the consumer may act. `Transfer.settle`
makes all steps that can be made without the consumer.

Offsets are 64-bit words. The end of the object is the offset of the first answer with a declared
length plus that length. Where this sum does not fit in a word, or the offset behind a chunk does
not, the task breaks down: nothing more is handed over, not even a last signal.

## Main definitions

* `Transfer`, its plan `Transfer.Plan`, its memory `Transfer.Progress` and its `Transfer.Phase`.
* `Transfer.request`, `Transfer.next`, `Transfer.cancel`: what the consumer does.
* `Transfer.step`, `Transfer.settle`: what the task does.

## Main results

* `Transfer.step_smaller`: every step of the task lowers `Transfer.measure`, so it comes to rest.
-/

namespace QueryResults.Download

open Store

/-- What a consumer receives, in order. -/
inductive Signal where
  | chunk (bytes : List UInt8)
  | complete
  | failed (e : Failure)
  deriving Repr

/-- The last signal of a transfer. -/
def Signal.isTerminal : Signal → Bool
  | chunk _ => false
  | complete | failed _ => true

/-- What is fixed when a transfer starts. -/
structure Transfer.Plan where
  location : Location
  /-- How often the transfer is resumed. -/
  maxRetries : Nat
  /-- The wait before the first resumption; before resumption `n` it is `n` times as long. -/
  retryDelay : Duration
  /-- How many signals the channel holds. -/
  capacity : Nat
  deriving DecidableEq, Repr

/-- What a transfer remembers across its requests. -/
structure Transfer.Progress where
  /-- Chunks granted and not yet handed over. -/
  demand : UInt64 := 0
  /-- The offset of the next byte to hand over. -/
  delivered : UInt64
  retriesLeft : Nat
  /-- The tag of the object, once known. -/
  etag : Option String
  /-- The offset at which the object ends, once declared. -/
  finish : Option UInt64 := none
  /-- Whether the store has answered a request. -/
  responded : Bool := false
  /-- The failures so far, oldest first. -/
  failures : List Failure := []
  deriving Repr

/-- Where the task of a transfer stands. -/
inductive Transfer.Phase where
  /-- About to ask the store. -/
  | opening
  /-- The request is out, and this is what becomes of it. -/
  | awaiting (answer : Answer)
  /-- Between two items of a body. -/
  | reading (body : List Item)
  /-- Waiting for room for a chunk. -/
  | offering (bytes : List UInt8) (body : List Item)
  /-- Waiting before the object is requested again. -/
  | pausing (left : Duration)
  /-- Waiting for room for the last signal. -/
  | closing (last : Signal)
  | ended
  /-- Broken down, where an offset did not fit in a word. No last signal comes. -/
  | lost
  deriving Repr

/-- A transfer and what it shares with its consumer. -/
structure Transfer where
  plan : Transfer.Plan
  progress : Transfer.Progress
  phase : Transfer.Phase := .opening
  /-- Demand granted and not yet taken into account. -/
  granted : List UInt64 := []
  /-- Signals handed over and not yet received. -/
  channel : List Signal := []
  cancelled : Bool := false
  /-- Whether the consumer has received the last signal. -/
  closed : Bool := false
  deriving Repr

namespace Transfer

/-- A transfer that starts at an offset, under a tag if one is known. -/
def start (plan : Plan) (offset : UInt64) (etag : Option String) : Transfer :=
  { plan, progress := { delivered := offset, retriesLeft := plan.maxRetries, etag } }

/-! ### The consumer -/

/-- Grants demand for `n` more chunks. -/
def grant (t : Transfer) (n : UInt64) : Transfer := { t with granted := t.granted ++ [n] }

/-- Grants demand for `n` more chunks, at least one. -/
def request (t : Transfer) (n : UInt64) : Except Failure Transfer :=
  if n = 0 then .error (.invalidArgument "Requested chunk count must be positive")
  else .ok (t.grant n)

/-- Stops the transfer. -/
def cancel (t : Transfer) : Transfer := { t with cancelled := true }

/-- What a consumer gets when it asks for the next signal. -/
inductive Receipt where
  | signal (s : Signal)
  /-- No signal will come any more. -/
  | over
  /-- No signal is there yet. -/
  | notYet
  deriving Repr

/-- Whether the task is over, in good order or not. -/
def isEnded (t : Transfer) : Bool :=
  match t.phase with
  | .ended | .lost => true
  | _ => false

/-- Receives the next signal, if there is one. -/
def next (t : Transfer) : Receipt × Transfer :=
  if t.closed || t.cancelled then (.over, t)
  else
    match t.channel with
    | s :: channel => (.signal s, { t with channel, closed := s.isTerminal })
    | [] => if t.isEnded then (.over, { t with closed := true }) else (.notYet, t)

/-! ### The task -/

/-- The sum of two demands, kept to 64 bits. -/
def addDemand (a b : UInt64) : UInt64 := .ofNat (min (a.toNat + b.toNat) (UInt64.size - 1))

/-- The demand once all that was granted is taken into account. -/
def demandNow (t : Transfer) : UInt64 := t.granted.foldl addDemand t.progress.demand

/-- The request for what is still missing. -/
def nextRequest (t : Transfer) : Request :=
  { location := t.plan.location
    start := if t.progress.delivered = 0 then none else some t.progress.delivered
    ifMatch := t.progress.etag }

/-- A failure with the place where it happened. -/
def located (t : Transfer) (e : Failure) : Failure :=
  let location := t.plan.location
  let offset := t.progress.delivered
  let reason := e.message
  e.inContext s!"GET {location} at offset {offset}: {reason}"

/-- Takes an accepted request into account: the first tag and the first declared length count. A tag
other than the one expected is refused. -/
def Progress.accept (p : Progress) (r : Response) : Except Failure Progress :=
  let accepted : Progress :=
    { p with
      etag := p.etag <|> r.etag
      finish := p.finish <|> r.length.map (p.delivered + ·)
      responded := true }
  match p.etag, r.etag with
  | some expected, some actual =>
    if expected = actual then .ok accepted
    else .error (.preconditionFailed s!"ETag changed from {expected} to {actual}")
  | _, _ => .ok accepted

/-- Whether the end that a response declares fits in a word, if it is the one that counts. -/
def Progress.fits (p : Progress) (r : Response) : Bool :=
  p.finish.isSome || r.length.all fun n => p.delivered.toNat + n.toNat < UInt64.size

/-- Gives up with a failure, or waits to request the rest again. -/
def retry (t : Transfer) (e : Failure) : Transfer :=
  if e.kind = .preconditionFailed ∨ t.progress.retriesLeft = 0 then
    { t with phase := .closing (.failed (e.withSuppressed t.progress.failures)) }
  else
    let left := t.progress.retriesLeft - 1
    { t with
      progress :=
        { t.progress with retriesLeft := left, failures := t.progress.failures ++ [e] }
      phase :=
        .pausing (Timer.ticking.lasts (t.plan.retryDelay.scale (t.plan.maxRetries - left))) }

/-- A request that was not accepted: before the store has answered once, this ends the transfer. -/
def refused (t : Transfer) (e : Failure) : Transfer :=
  if t.progress.responded then t.retry (t.located e)
  else { t with phase := .closing (.failed (t.located e)) }

/-- Whether everything up to the declared end has been handed over. -/
def Progress.isComplete (p : Progress) : Bool :=
  match p.finish with
  | some finish => finish ≤ p.delivered
  | none => false

/-- A body that has ended: complete, unless its end was declared to lie further on. -/
def bodyEnded (t : Transfer) : Transfer :=
  match t.progress.finish with
  | some finish =>
    if t.progress.delivered < finish then
      let location := t.plan.location
      let offset := t.progress.delivered
      t.retry (.io s!"Body of {location} ended at offset {offset} of {finish}")
    else { t with phase := .closing .complete }
  | none => { t with phase := .closing .complete }

/-- Takes the next item of a body, with demand at hand. -/
def takeItem (t : Transfer) : List Item → Option Transfer
  | [] => some t.bodyEnded
  | .stall :: _ => none
  | .failure e :: _ => some (t.retry (t.located e))
  | .chunk [] :: body => some { t with phase := .reading body }
  | .chunk (b :: bytes) :: body => some { t with phase := .offering (b :: bytes) body }

/-- Whether the channel has room for a signal. -/
def hasRoom (t : Transfer) : Bool := t.channel.length < t.plan.capacity

/-- The progress after a chunk was handed over. -/
def Progress.afterChunk (p : Progress) (bytes : List UInt8) : Progress :=
  { p with delivered := p.delivered + .ofNat bytes.length, demand := p.demand - 1 }

/-- Whether the offset behind a chunk fits in a word. -/
def Progress.reaches (p : Progress) (bytes : List UInt8) : Bool :=
  p.delivered.toNat + bytes.length < UInt64.size

/-- One step of the task that does not involve the store. Nothing if the task cannot go on by
itself. -/
def advance (t : Transfer) : Option Transfer :=
  match t.phase with
  | .ended | .lost => none
  | .opening => if t.cancelled then some { t with phase := .ended } else none
  | .awaiting answer =>
    if t.cancelled then some { t with phase := .ended }
    else
      match answer with
      | .silence => none
      | .failure e => some (t.refused e)
      | .response r =>
        match t.progress.accept r with
        | .ok progress =>
          if t.progress.fits r then some { t with progress, phase := .reading r.body }
          else
            some { t with progress := { t.progress with etag := progress.etag }, phase := .lost }
        | .error e => some (t.refused e)
  | .reading body =>
    if t.cancelled then some { t with phase := .ended }
    else if t.progress.isComplete then some { t with phase := .closing .complete }
    else if t.demandNow = 0 then none
    else
      { t with progress := { t.progress with demand := t.demandNow }, granted := [] }.takeItem
        body
  | .offering bytes body =>
    if t.cancelled then some { t with phase := .ended }
    else if t.hasRoom then
      some
        { t with
          channel := t.channel ++ [.chunk bytes]
          progress := t.progress.afterChunk bytes
          phase := if t.progress.reaches bytes then .reading body else .lost }
    else none
  | .pausing left =>
    if t.cancelled then some { t with phase := .ended }
    else if left.nanos = 0 then some { t with phase := .opening }
    else none
  | .closing last =>
    if t.cancelled then some { t with phase := .ended }
    else if t.hasRoom then some { t with channel := t.channel ++ [last], phase := .ended }
    else none

/-- One step of the task. Nothing if it cannot go on by itself. -/
def step {σ : Type} (store : Store σ) (t : Transfer) (s : σ) : Option (Transfer × σ) :=
  match t.phase, t.cancelled with
  | .opening, false =>
    let (answer, s) := store.get t.nextRequest s
    some ({ t with phase := .awaiting answer }, s)
  | _, _ => t.advance.map (·, s)

/-! ### Coming to rest -/

/-- How far a phase is from the end, apart from the items of a body. -/
def Phase.rank : Phase → Nat
  | pausing _ => 4
  | opening => 3
  | awaiting _ => 2
  | reading _ | offering _ _ => 1
  | closing _ | ended | lost => 0

/-- How much is left to do within a phase. -/
def Phase.weight : Phase → Nat
  | reading body => 2 * body.length
  | offering _ body => 2 * body.length + 1
  | closing _ => 1
  | _ => 0

/-- What is left to do, in lexicographic order: the retries, the phases, and the work within the
phase. -/
def measure (t : Transfer) : Nat × Nat × Nat :=
  (t.progress.retriesLeft, t.phase.rank, t.phase.weight)

/-- When a transfer has less to do than another. -/
def Smaller (t u : Transfer) : Prop :=
  Prod.Lex (· < ·) (Prod.Lex (· < ·) (· < ·)) t.measure u.measure

theorem smaller_wf : WellFounded Smaller :=
  InvImage.wf measure (Prod.lex Nat.lt_wfRel (Prod.lex Nat.lt_wfRel Nat.lt_wfRel)).wf

theorem smaller_of_retries {t u : Transfer}
    (h : t.progress.retriesLeft < u.progress.retriesLeft) : Smaller t u := .left _ _ h

theorem smaller_of_rank {t u : Transfer} (h : t.progress.retriesLeft = u.progress.retriesLeft)
    (h' : t.phase.rank < u.phase.rank) : Smaller t u := by
  unfold Smaller measure
  rw [h]
  exact .right _ (.left _ _ h')

theorem smaller_of_weight {t u : Transfer} (h : t.progress.retriesLeft = u.progress.retriesLeft)
    (h' : t.phase.rank = u.phase.rank) (h'' : t.phase.weight < u.phase.weight) :
    Smaller t u := by
  unfold Smaller measure
  rw [h, h']
  exact .right _ (.right _ h'')

theorem retriesLeft_of_accept {p p' : Progress} {r : Response} (h : p.accept r = .ok p') :
    p'.retriesLeft = p.retriesLeft := by
  unfold Progress.accept at h
  split at h
  · split at h
    · cases h
      rfl
    · cases h
  · cases h
    rfl

theorem retry_smaller {t u : Transfer} (e : Failure)
    (h : t.progress.retriesLeft = u.progress.retriesLeft) (h' : 0 < u.phase.rank) :
    Smaller (t.retry e) u := by
  unfold retry
  split
  · exact smaller_of_rank h h'
  · rename_i hr
    refine smaller_of_retries ?_
    simp only [not_or] at hr
    simp only
    omega

theorem refused_smaller {t u : Transfer} (e : Failure)
    (h : t.progress.retriesLeft = u.progress.retriesLeft) (h' : 0 < u.phase.rank) :
    Smaller (t.refused e) u := by
  unfold refused
  split
  · exact retry_smaller _ h h'
  · exact smaller_of_rank h h'

theorem bodyEnded_smaller {t u : Transfer}
    (h : t.progress.retriesLeft = u.progress.retriesLeft) (h' : 0 < u.phase.rank) :
    Smaller t.bodyEnded u := by
  unfold bodyEnded
  split
  · split
    · exact retry_smaller _ h h'
    · exact smaller_of_rank h h'
  · exact smaller_of_rank h h'

theorem takeItem_smaller {t t' u : Transfer} {body : List Item}
    (h : t.progress.retriesLeft = u.progress.retriesLeft) (hu : u.phase = .reading body)
    (ht : t.takeItem body = some t') : Smaller t' u := by
  have rank : 0 < u.phase.rank := by simp [hu, Phase.rank]
  match body, ht with
  | [], ht =>
    cases ht
    exact bodyEnded_smaller h rank
  | .failure e :: _, ht =>
    cases ht
    exact retry_smaller _ h rank
  | .chunk [] :: body, ht =>
    cases ht
    refine smaller_of_weight h ?_ ?_ <;> simp [hu, Phase.rank, Phase.weight]
  | .chunk (b :: bytes) :: body, ht =>
    cases ht
    refine smaller_of_weight h ?_ ?_
    · simp [hu, Phase.rank]
    · simp only [hu, Phase.weight, List.length_cons]
      omega

theorem advance_smaller {t t' : Transfer} (h : t.advance = some t') : Smaller t' t := by
  unfold advance at h
  cases hp : t.phase with
  | ended | lost =>
    simp only [hp] at h
    cases h
  | opening =>
    simp only [hp] at h
    split at h <;> cases h
    exact smaller_of_rank rfl (by simp [hp, Phase.rank])
  | awaiting answer =>
    have rank : 0 < t.phase.rank := by simp [hp, Phase.rank]
    simp only [hp] at h
    split at h
    · cases h
      exact smaller_of_rank rfl rank
    · split at h
      · cases h
      · cases h
        exact refused_smaller _ rfl rank
      · split at h
        · rename_i ha
          split at h <;> cases h
          · exact smaller_of_rank (retriesLeft_of_accept ha) (by simp [hp, Phase.rank])
          · exact smaller_of_rank rfl rank
        · cases h
          exact refused_smaller _ rfl rank
  | reading body =>
    have rank : 0 < t.phase.rank := by simp [hp, Phase.rank]
    simp only [hp] at h
    split at h
    · cases h
      exact smaller_of_rank rfl rank
    · split at h
      · cases h
        exact smaller_of_rank rfl rank
      · split at h
        · cases h
        · exact takeItem_smaller (by rfl) hp h
  | offering bytes body =>
    have rank : 0 < t.phase.rank := by simp [hp, Phase.rank]
    simp only [hp] at h
    split at h
    · cases h
      exact smaller_of_rank rfl rank
    · split at h <;> cases h
      by_cases hr : t.progress.reaches bytes = true
      · refine smaller_of_weight rfl ?_ ?_ <;> simp [hp, hr, Phase.rank, Phase.weight]
      · refine smaller_of_rank rfl ?_
        rw [if_neg hr]
        exact rank
  | pausing left =>
    have rank : 0 < t.phase.rank := by simp [hp, Phase.rank]
    simp only [hp] at h
    split at h
    · cases h
      exact smaller_of_rank rfl rank
    · split at h <;> cases h
      exact smaller_of_rank rfl (by simp [hp, Phase.rank])
  | closing last =>
    simp only [hp] at h
    split at h
    · cases h
      refine smaller_of_weight rfl ?_ ?_ <;> simp [hp, Phase.rank, Phase.weight]
    · split at h <;> cases h
      refine smaller_of_weight rfl ?_ ?_ <;> simp [hp, Phase.rank, Phase.weight]

/-- Every step of the task leaves less to do. -/
theorem step_smaller {σ : Type} {store : Store σ} {t t' : Transfer} {s s' : σ}
    (h : t.step store s = some (t', s')) : Smaller t' t := by
  unfold step at h
  split at h
  · rename_i hp _
    cases h
    exact smaller_of_rank rfl (by simp [hp, Phase.rank])
  · simp only [Option.map_eq_some_iff, Prod.mk.injEq] at h
    obtain ⟨u, hu, rfl, rfl⟩ := h
    exact advance_smaller hu

/-- Makes all steps that the task can make by itself. -/
def settle {σ : Type} (store : Store σ) (t : Transfer) (s : σ) : Transfer × σ :=
  match _h : t.step store s with
  | none => (t, s)
  | some (t', s') => settle store t' s'
termination_by smaller_wf.wrap t
decreasing_by exact step_smaller _h

theorem Smaller.trans {t u v : Transfer} (h : Smaller t u) (h' : Smaller u v) : Smaller t v := by
  simp only [Smaller, Prod.lex_def] at *
  omega

/-- Coming to rest changes nothing or leaves less to do. -/
theorem settle_eq_or_smaller {σ : Type} (store : Store σ) (t : Transfer) (s : σ) :
    settle store t s = (t, s) ∨ Smaller (settle store t s).1 t := by
  fun_induction settle store t s with
  | case1 => exact .inl rfl
  | case2 t s t' s' h ih =>
    refine .inr ?_
    rcases ih with ih | ih
    · rw [ih]
      exact step_smaller h
    · exact ih.trans (step_smaller h)

/-! ### What is left to receive -/

/-- When less is left to do and to receive: less to do, or as much to do and fewer signals in the
channel. -/
def Less (t u : Transfer) : Prop :=
  Prod.Lex (Prod.Lex (· < ·) (Prod.Lex (· < ·) (· < ·))) (· < ·)
    (t.measure, t.channel.length) (u.measure, u.channel.length)

theorem less_wf : WellFounded Less :=
  InvImage.wf (fun t : Transfer => (t.measure, t.channel.length))
    (Prod.lex (Prod.lex Nat.lt_wfRel (Prod.lex Nat.lt_wfRel Nat.lt_wfRel)) Nat.lt_wfRel).wf

theorem Less.of_smaller {t u : Transfer} (h : Smaller t u) : Less t u := .left _ _ h

theorem Less.trans {t u v : Transfer} (h : Less t u) (h' : Less u v) : Less t v := by
  simp only [Less, Prod.lex_def, Prod.ext_iff] at *
  omega

/-- Receiving a signal leaves less to receive. -/
theorem less_of_next {t t' : Transfer} {x : Signal} (h : t.next = (.signal x, t')) :
    Less t' t := by
  unfold next at h
  split at h
  · cases h
  · split at h
    · rename_i hc
      cases h
      refine .right _ ?_
      simp [hc]
    · split at h <;> cases h

/-- Granting demand and coming to rest leaves no more than there was. -/
theorem Less.settle_grant {σ : Type} {t u : Transfer} (h : Less t u) (n : UInt64)
    (store : Store σ) (s : σ) : Less (settle store (t.grant n) s).1 u := by
  rcases settle_eq_or_smaller store (t.grant n) s with he | hs
  · rw [he]
    exact h
  · refine .left _ _ ?_
    rcases Prod.lex_def.1 h with h' | h'
    · exact Smaller.trans (u := t) hs h'
    · have same : t.measure = u.measure := h'.1
      rw [← same]
      exact hs

end Transfer

end QueryResults.Download
