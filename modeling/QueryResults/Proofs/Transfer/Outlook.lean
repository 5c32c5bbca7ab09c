import QueryResults.Proofs.Transfer.Ledger

/-!
# The outlook of a transfer

Demand, room and pauses decide when a transfer goes on, but not with what. The *outlook* of a
transfer is what a consumer who never cancels will still receive, together with the state in which
the store will be left. It is told attempt by attempt: an attempt asks for what is missing and takes
items from the body until it is complete or falls short, and one that falls short is followed by
another one, if there is a response to build on and a retry left.

No step of a task that is neither cancelled nor breaks down changes its outlook, except that a
signal which is handed over leaves it (`Transfer.forecast_transition`). So what a course of a
transfer comes to does not depend on the order of the acts.

## Main definitions

* `Progress.consume`, `Progress.answered`: what a body and an answer come to.
* `Transfer.saga`: what all further attempts come to.
* `Transfer.outlook`, `Transfer.forecast`: what is still to come, without and with the channel.
* `Transfer.Coherent`: what every transfer keeps that is not cancelled.

## Main results

* `Transfer.forecast_transition`: steps of the task keep the forecast.
* `Transfer.mem_saga`, `Transfer.mem_forecast`: what is asked is in the log in the end.
-/

namespace QueryResults.Download.Transfer

open Store

variable {σ : Type} {store : Store σ} {t t' : Transfer} {s s' : σ} {location : Location}
  {p : Progress}

/-! ### One attempt -/

/-- What an attempt comes to behind its chunks. -/
inductive Upshot where
  | completed
  | fellShort (e : Failure)
  /-- Nothing comes any more. -/
  | stuck

/-- The chunks of an attempt, what it comes to, and the progress made by then. -/
structure Attempt where
  chunks : List (List UInt8) := []
  upshot : Upshot
  progress : Progress

/-- The same attempt with a chunk before the others. -/
def Attempt.after (bytes : List UInt8) (a : Attempt) : Attempt :=
  { a with chunks := bytes :: a.chunks }

namespace Progress

/-- Progress without the demand and the retries, which have no influence on a single attempt. -/
def bare (p : Progress) : Progress := { p with demand := 0, retriesLeft := 0 }

/-- The progress behind some more bytes. -/
def pass (p : Progress) (bytes : List UInt8) : Progress :=
  { p with delivered := p.delivered + .ofNat bytes.length }

/-- The progress after one more failure. -/
def noting (p : Progress) (e : Failure) : Progress := { p with failures := p.failures ++ [e] }

/-- A transfer that has made some progress and nothing else. -/
def toTransfer (location : Location) (p : Progress) : Transfer where
  plan := { location, maxRetries := 0, retryDelay := .zero, capacity := 0 }
  progress := p

/-- What becomes of a body that has ended. -/
def upshot (location : Location) (p : Progress) : Upshot :=
  match p.finish with
  | some finish =>
    if p.delivered < finish then
      let offset := p.delivered
      .fellShort (.io s!"Body of {location} ended at offset {offset} of {finish}")
    else .completed
  | none => .completed

/-- What becomes of a body. -/
def consume (location : Location) (body : List Item) (p : Progress) : Attempt :=
  if p.isComplete then { upshot := .completed, progress := p }
  else
    match body with
    | [] => { upshot := p.upshot location, progress := p }
    | .stall :: _ => { upshot := .stuck, progress := p }
    | .failure e :: _ =>
      { upshot := .fellShort ((p.toTransfer location).located e), progress := p }
    | .chunk [] :: body => consume location body p
    | .chunk (b :: bytes) :: body =>
      (consume location body (p.pass (b :: bytes))).after (b :: bytes)

/-- Once everything is there, the body does not count any more. -/
theorem consume_of_isComplete (hd : p.isComplete = true) (body : List Item) :
    p.consume location body = { upshot := .completed, progress := p } := by
  unfold consume
  exact if_pos hd

/-- What becomes of an answer. -/
def answered (location : Location) (p : Progress) : Answer → Attempt
  | .silence => { upshot := .stuck, progress := p }
  | .failure e => { upshot := .fellShort ((p.toTransfer location).located e), progress := p }
  | .response r =>
    match p.accept r with
    | .ok p => p.consume location r.body
    | .error e => { upshot := .fellShort ((p.toTransfer location).located e), progress := p }

end Progress

/-! ### All further attempts -/

/-- Signals still to come, the progress made by then, and the state in which the store is left. -/
@[ext] structure Outlook (σ : Type) where
  signals : List Signal
  progress : Progress
  state : σ

/-- The same outlook behind some signals. -/
def Outlook.behind (l : List Signal) (x : Outlook σ) : Outlook σ :=
  { x with signals := l ++ x.signals }

theorem Outlook.behind_behind (l l' : List Signal) (x : Outlook σ) :
    (x.behind l').behind l = x.behind (l ++ l') := by
  simp [behind]

theorem Outlook.behind_cancel {l : List Signal} {x y : Outlook σ} (h : x.behind l = y.behind l) :
    x = y := by
  simp only [behind, mk.injEq, List.append_cancel_left_eq] at h
  exact Outlook.ext h.1 h.2.1 h.2.2

/-- What follows an attempt: the last signal, or another attempt as told by `again`, unless there is
nothing to build on. -/
def Attempt.conclude (again : Option (Failure → Progress → σ → Outlook σ)) (a : Attempt) (s : σ) :
    Outlook σ :=
  match a.upshot, again with
  | .completed, _ => ⟨a.chunks.map .chunk ++ [.complete], a.progress, s⟩
  | .stuck, _ => ⟨a.chunks.map .chunk, a.progress, s⟩
  | .fellShort e, none =>
    ⟨a.chunks.map .chunk ++ [.failed (e.withSuppressed a.progress.failures)], a.progress, s⟩
  | .fellShort e, some again =>
    if a.progress.responded = false ∨ e.kind = .preconditionFailed then
      ⟨a.chunks.map .chunk ++ [.failed (e.withSuppressed a.progress.failures)], a.progress, s⟩
    else (again e a.progress s).behind (a.chunks.map .chunk)

/-- A chunk that comes before the others of an attempt comes before all that follows. -/
theorem Attempt.conclude_after (again : Option (Failure → Progress → σ → Outlook σ)) (a : Attempt)
    (bytes : List UInt8) (s : σ) :
    (a.after bytes).conclude again s = (a.conclude again s).behind [.chunk bytes] := by
  unfold conclude after
  cases a.upshot with
  | completed | stuck => rfl
  | fellShort e =>
    cases again with
    | none => rfl
    | some again =>
      simp only
      split <;> rfl

/-- What all further attempts come to, with as many retries. What is known about the object is
carried over from one attempt to the next by `carry`. -/
def saga (store : Store σ) (location : Location) (carry : Progress → Progress) :
    Nat → Progress → σ → Outlook σ
  | 0, p, s =>
    let q := (p.toTransfer location).nextRequest
    (p.answered location (store.get q s).1).conclude none (store.get q s).2
  | left + 1, p, s =>
    let q := (p.toTransfer location).nextRequest
    (p.answered location (store.get q s).1).conclude
      (some fun e p => saga store location carry left (carry (p.noting e))) (store.get q s).2

/-- The attempts that follow one that fell short. -/
def again (store : Store σ) (location : Location) (carry : Progress → Progress) :
    Nat → Option (Failure → Progress → σ → Outlook σ)
  | 0 => none
  | left + 1 => some fun e p => saga store location carry left (carry (p.noting e))

theorem saga_eq (carry : Progress → Progress) (left : Nat) (p : Progress) (s : σ) :
    saga store location carry left p s =
      (p.answered location (store.get (p.toTransfer location).nextRequest s).1).conclude
        (again store location carry left) (store.get (p.toTransfer location).nextRequest s).2 := by
  cases left <;> rfl

/-- What a transfer will still hand over if it is never cancelled. -/
def outlook (store : Store σ) (t : Transfer) (s : σ) : Outlook σ :=
  let location := t.plan.location
  let left := t.progress.retriesLeft
  let p := t.progress.bare
  match t.phase with
  | .opening | .pausing _ => saga store location id left p s
  | .awaiting answer => (p.answered location answer).conclude (again store location id left) s
  | .reading body => (p.consume location body).conclude (again store location id left) s
  | .offering bytes body =>
    (((p.pass bytes).consume location body).after bytes).conclude (again store location id left) s
  | .closing last => ⟨[last], p, s⟩
  | .ended | .lost => ⟨[], p, s⟩

/-- What the consumer of a transfer will still receive. -/
def forecast (store : Store σ) (t : Transfer) (s : σ) : Outlook σ :=
  (outlook store t s).behind t.channel

/-! ### What a transfer keeps -/

/-- What every transfer keeps that is not cancelled: failures are noted only after a response, a
body belongs to a response, and the last signal comes last. -/
structure Coherent (t : Transfer) : Prop where
  failures : t.progress.responded = false → t.progress.failures = []
  reading : ∀ body, t.phase = .reading body → t.progress.responded = true
  offering : ∀ bytes body, t.phase = .offering bytes body → t.progress.responded = true
  closing : ∀ last, t.phase = .closing last → last.isTerminal = true
  ended : Terminated t.channel → t.phase = .ended
  last : t.channel.Pairwise fun x _ => x.isTerminal = false

namespace Coherent

theorem start (plan : Plan) (offset : UInt64) (etag : Option String) :
    Coherent (start plan offset etag) where
  failures _ := rfl
  reading := nofun
  offering := nofun
  closing := nofun
  ended h := (not_terminated_nil h).elim
  last := .nil

/-- A transfer that goes on in another phase. -/
theorem of_phase (h : t.Coherent) (hp : t.phase ≠ .ended) (hch : t'.channel = t.channel)
    (failures : t'.progress.responded = false → t'.progress.failures = [])
    (reading : ∀ body, t'.phase = .reading body → t'.progress.responded = true)
    (offering : ∀ bytes body, t'.phase = .offering bytes body → t'.progress.responded = true)
    (closing : ∀ last, t'.phase = .closing last → last.isTerminal = true) : t'.Coherent where
  failures
  reading
  offering
  closing
  ended hx := absurd (h.ended (hch ▸ hx)) hp
  last := hch ▸ h.last

theorem retry (h : t.Coherent) (hp : t.phase ≠ .ended) (hr : t.progress.responded = true)
    (e : Failure) : (t.retry e).Coherent := by
  unfold Transfer.retry
  split
  · exact h.of_phase hp rfl h.failures nofun nofun fun _ hl => by cases hl; rfl
  · refine h.of_phase hp rfl (fun hr' => ?_) nofun nofun nofun
    cases hr.symm.trans hr'

theorem refused (h : t.Coherent) (hp : t.phase ≠ .ended) (e : Failure) :
    (t.refused e).Coherent := by
  unfold Transfer.refused
  split
  · rename_i hr
    exact h.retry hp hr _
  · exact h.of_phase hp rfl h.failures nofun nofun fun _ hl => by cases hl; rfl

theorem bodyEnded (h : t.Coherent) (hp : t.phase ≠ .ended) (hr : t.progress.responded = true) :
    t.bodyEnded.Coherent := by
  have completed : ({ t with phase := .closing .complete } : Transfer).Coherent :=
    h.of_phase hp rfl h.failures nofun nofun fun _ hl => by cases hl; rfl
  unfold Transfer.bodyEnded
  split
  · split
    · exact h.retry hp hr _
    · exact completed
  · exact completed

theorem gathered (h : t.Coherent) : t.gathered.Coherent where
  failures := h.failures
  reading := h.reading
  offering := h.offering
  closing := h.closing
  ended := h.ended
  last := h.last

/-- A signal is put behind those of a task that has not ended. -/
theorem last_append (h : t.Coherent) (hp : t.phase ≠ .ended) (x : Signal) :
    (t.channel ++ [x]).Pairwise fun x _ => x.isTerminal = false := by
  rw [List.pairwise_append]
  refine ⟨h.last, List.pairwise_singleton _ _, fun y hy _ _ => ?_⟩
  exact Bool.eq_false_iff.2 fun hy' => hp (h.ended ⟨y, hy, hy'⟩)

/-- A step of the task keeps a transfer coherent. -/
theorem transition (h : t.Coherent) (ht : Transition store t s t' s') : t'.Coherent := by
  have hne := phase_ne_ended_of_transition ht
  cases ht with
  | stop => exact h.of_phase hne rfl h.failures nofun nofun nofun
  | ask => exact h.of_phase hne rfl h.failures nofun nofun nofun
  | fail hc hp => exact h.refused hne _
  | accept hc hp ha hf =>
    obtain ⟨rfl, -⟩ := accept_eq_ok ha
    exact h.of_phase hne rfl nofun (fun _ _ => rfl) nofun nofun
  | overflow => exact h.of_phase hne rfl h.failures nofun nofun nofun
  | reject hc hp ha => exact h.refused hne _
  | reach => exact h.of_phase hne rfl h.failures nofun nofun fun _ hl => by cases hl; rfl
  | finish hc hp hd hn => exact h.gathered.bodyEnded hne (h.reading _ hp)
  | breakOff hc hp hd hn => exact h.gathered.retry hne (h.reading _ hp) _
  | skip hc hp hd hn =>
    exact h.of_phase hne rfl h.failures (fun _ _ => h.reading _ hp) nofun nofun
  | take hc hp hd hn =>
    exact h.of_phase hne rfl h.failures nofun (fun _ _ _ => h.reading _ hp) nofun
  | hand hc hp hr hf | overrun hc hp hr hf =>
    exact
      { failures := h.failures
        reading := fun _ _ => h.offering _ _ hp
        offering := nofun
        closing := nofun
        ended := fun hx => by
          rcases terminated_append.1 hx with hx | hx
          · exact absurd (h.ended hx) hne
          · cases terminated_singleton.1 hx
        last := h.last_append hne _ }
  | wake => exact h.of_phase hne rfl h.failures nofun nofun nofun
  | close hc hp hr =>
    exact
      { failures := h.failures
        reading := nofun
        offering := nofun
        closing := nofun
        ended := fun _ => rfl
        last := h.last_append hne _ }

/-- Time that passes keeps a transfer coherent. -/
theorem lapse (h : t.Coherent) (span : Duration) : (t.lapse span).Coherent := by
  unfold Transfer.lapse
  split
  · rename_i left hp
    have hne : t.phase ≠ .ended := fun he => by cases hp.symm.trans he
    exact h.of_phase hne rfl h.failures (fun _ hr => by cases hr) (fun _ _ ho => by cases ho)
      fun _ hl => by cases hl
  · exact h

/-- Granting demand keeps a transfer coherent. -/
theorem grant (h : t.Coherent) (n : UInt64) : (t.grant n).Coherent := { h with }

/-- Receiving a signal keeps a transfer coherent. -/
theorem next (h : t.Coherent) {x : Receipt} (hn : t.next = (x, t')) : t'.Coherent := by
  cases x with
  | signal x =>
    obtain ⟨rest, hch, rfl⟩ := next_eq_signal hn
    have hsub : Terminated rest → Terminated t.channel :=
      fun ⟨y, hy, hy'⟩ => ⟨y, hch ▸ List.mem_cons_of_mem _ hy, hy'⟩
    exact
      { h with
        ended := fun hx => h.ended (hsub hx)
        last := (List.pairwise_cons.1 (hch ▸ h.last)).2 }
  | _ =>
    obtain ⟨closed, rfl⟩ := next_eq_of_not_signal hn nofun
    exact { h with }

end Coherent

/-! ### Steps keep the forecast -/

theorem outlook_retry (hr : t.progress.responded = true) (e : Failure) (s : σ) :
    outlook store (t.retry e) s =
      ({ upshot := .fellShort e, progress := t.progress.bare } : Attempt).conclude
        (again store t.plan.location id t.progress.retriesLeft) s := by
  unfold Transfer.retry
  cases hl : t.progress.retriesLeft with
  | zero =>
    rw [if_pos (.inr rfl)]
    rfl
  | succ left =>
    simp only [Nat.add_one_ne_zero, or_false]
    by_cases hk : e.kind = .preconditionFailed
    · simp [outlook, again, Attempt.conclude, hk, Progress.bare]
    · simp [outlook, again, Attempt.conclude, hk, hr, Outlook.behind, Progress.bare,
        Progress.noting]

theorem outlook_refused (h : t.Coherent) (e : Failure) (s : σ) :
    outlook store (t.refused e) s =
      ({ upshot := .fellShort (t.located e), progress := t.progress.bare } : Attempt).conclude
        (again store t.plan.location id t.progress.retriesLeft) s := by
  unfold Transfer.refused
  split
  · rename_i hr
    exact outlook_retry hr _ s
  · rename_i hr
    have hr' : t.progress.bare.responded = false := Bool.eq_false_iff.2 hr
    have hnone : (t.located e).withSuppressed t.progress.bare.failures = t.located e := by
      rw [show t.progress.bare.failures = [] from h.failures hr']
      rfl
    cases t.progress.retriesLeft <;>
      simp [outlook, again, Attempt.conclude, hr', hnone]

theorem outlook_bodyEnded (hr : t.progress.responded = true) (s : σ) :
    outlook store t.bodyEnded s =
      ({ upshot := t.progress.bare.upshot t.plan.location, progress := t.progress.bare } :
        Attempt).conclude (again store t.plan.location id t.progress.retriesLeft) s := by
  unfold Transfer.bodyEnded Progress.upshot
  cases hf : t.progress.finish with
  | none => simp [outlook, Attempt.conclude, Progress.bare, hf]
  | some finish =>
    by_cases hlt : t.progress.delivered < finish
    · simp only [hlt, ↓reduceIte]
      rw [outlook_retry hr]
      simp [Progress.bare, hf, hlt]
    · simp [outlook, Attempt.conclude, Progress.bare, hf, hlt]

/-- An accepted response is accepted whatever the demand and the retries. -/
theorem accept_bare (r : Response) :
    p.bare.accept r = (p.accept r).map Progress.bare := by
  unfold Progress.accept Progress.bare
  cases p.etag <;> cases r.etag <;> try rfl
  simp only
  split <;> rfl

theorem forecast_of_outlook (hch : t'.channel = t.channel)
    (h : outlook store t' s' = outlook store t s) :
    forecast store t' s' = forecast store t s := by
  unfold forecast
  rw [hch, h]

/-- A step of a task that is neither cancelled nor breaks down keeps the forecast. -/
theorem forecast_transition (hc : t.cancelled = false) (hlost : t'.phase ≠ .lost) (h : t.Coherent)
    (ht : Transition store t s t' s') : forecast store t' s' = forecast store t s := by
  cases ht with
  | stop hc' => cases hc.symm.trans hc'
  | ask _ hp =>
    refine forecast_of_outlook rfl ?_
    simp only [outlook, hp, saga_eq]
    rfl
  | fail _ hp =>
    refine forecast_of_outlook (concluded_refused t _).channel_eq ?_
    rw [outlook_refused h]
    simp only [outlook, hp]
    rfl
  | @accept r p _ hp ha hf =>
    refine forecast_of_outlook rfl ?_
    have hplan : p.retriesLeft = t.progress.retriesLeft := retriesLeft_of_accept ha
    simp only [outlook, hp, Progress.answered, accept_bare, ha, Except.map, hplan]
  | reject _ hp ha =>
    refine forecast_of_outlook (concluded_refused t _).channel_eq ?_
    rw [outlook_refused h]
    simp only [outlook, hp, Progress.answered, accept_bare, ha]
    rfl
  | reach _ hp hd =>
    refine forecast_of_outlook rfl ?_
    have hd' : t.progress.bare.isComplete = true := hd
    simp only [outlook, hp, Progress.consume_of_isComplete hd']
    rfl
  | finish _ hp hd hn =>
    refine forecast_of_outlook (concluded_bodyEnded t.gathered).channel_eq ?_
    have hd' : t.progress.bare.isComplete = false := hd
    rw [outlook_bodyEnded (t := t.gathered) (h.reading _ hp)]
    simp only [outlook, hp, Progress.consume, hd']
    rfl
  | breakOff _ hp hd hn =>
    refine forecast_of_outlook (concluded_retry t.gathered _).channel_eq ?_
    have hd' : t.progress.bare.isComplete = false := hd
    rw [outlook_retry (t := t.gathered) (h.reading _ hp)]
    simp only [outlook, hp, Progress.consume, hd']
    rfl
  | skip _ hp hd hn =>
    refine forecast_of_outlook rfl ?_
    have hd' : t.progress.bare.isComplete = false := hd
    simp only [outlook, hp, Progress.consume, hd']
    rfl
  | take _ hp hd hn =>
    refine forecast_of_outlook rfl ?_
    have hd' : t.progress.bare.isComplete = false := hd
    simp only [outlook, hp, Progress.consume, hd']
    rfl
  | overflow | overrun => exact absurd rfl hlost
  | @hand bytes body _ hp hr hf =>
    have hpass : (t.progress.afterChunk bytes).bare = t.progress.bare.pass bytes := rfl
    simp only [forecast, outlook, hp, hpass, Attempt.conclude_after, Outlook.behind,
      List.append_assoc]
    rfl
  | wake _ hp hl =>
    refine forecast_of_outlook rfl ?_
    simp only [outlook, hp]
  | close _ hp hr => simp [forecast, outlook, hp, Outlook.behind, Progress.bare]

/-! ### The forecast and the consumer -/

/-- Granting demand changes nothing in the forecast. -/
theorem forecast_grant (n : UInt64) (s : σ) :
    forecast store (t.grant n) s = forecast store t s := rfl

/-- Nor does time that passes. -/
theorem forecast_lapse (t : Transfer) (span : Duration) (s : σ) :
    forecast store (t.lapse span) s = forecast store t s := by
  unfold lapse
  split
  · rename_i left hp
    simp only [forecast, outlook, hp]
  · rfl

/-- What is received comes off the front of the forecast. -/
theorem forecast_of_next {x : Signal} (hn : t.next = (.signal x, t')) (s : σ) :
    forecast store t s = (forecast store t' s).behind [x] := by
  obtain ⟨rest, hch, rfl⟩ := next_eq_signal hn
  unfold forecast
  rw [hch]
  rfl

/-- What is asked for and received, a signal or none, comes off the front of the forecast. -/
theorem forecast_received {x : Receipt} (hn : t.next = (x, t')) (s : σ) :
    forecast store t s = (forecast store t' s).behind (receivedSignals [.received x]) := by
  cases x with
  | signal x => exact forecast_of_next hn s
  | _ =>
    obtain ⟨closed, rfl⟩ := next_eq_of_not_signal hn nofun
    rfl

/-- A last signal at the front of the channel is all that is in it, and the task has ended. -/
theorem Coherent.eq_of_terminal (h : t.Coherent) {x : Signal} {rest : List Signal}
    (hch : t.channel = x :: rest) (hx : x.isTerminal = true) :
    t.channel = [x] ∧ t.phase = .ended := by
  have hlast := h.last
  rw [hch, List.pairwise_cons] at hlast
  have hrest : rest = [] :=
    List.eq_nil_iff_forall_not_mem.2 fun y hy => Bool.false_ne_true ((hlast.1 y hy).symm.trans hx)
  exact ⟨by rw [hch, hrest], h.ended ⟨x, hch ▸ List.mem_cons_self, hx⟩⟩

/-- Nothing is to come behind a last signal. -/
theorem Coherent.forecast_of_terminal (h : t.Coherent) {x : Signal} {rest : List Signal}
    (hch : t.channel = x :: rest) (hx : x.isTerminal = true) (s : σ) :
    forecast store t s = ⟨[x], t.progress.bare, s⟩ := by
  obtain ⟨hch, hp⟩ := h.eq_of_terminal hch hx
  simp [forecast, outlook, hp, hch, Outlook.behind]

/-! ### The log -/

/-- A step of the task adds to the log what it asks. -/
theorem log_transition {v v' : σ × List Exchange} (hc : t.cancelled = false)
    (ht : Transition store.logged t v t' v') :
    v.2 <+: v'.2 ∧ (t.phase = .opening →
      ⟨t.nextRequest, (store.get t.nextRequest v.1).1⟩ ∈ v'.2) := by
  cases ht with
  | stop hc' => cases hc.symm.trans hc'
  | ask _ hp =>
    exact ⟨List.prefix_append _ _,
      fun _ => List.mem_append_right _ (List.mem_singleton_self _)⟩
  | fail _ hp | accept _ hp | overflow _ hp | reject _ hp | reach _ hp | finish _ hp
  | breakOff _ hp | skip _ hp | take _ hp | hand _ hp | overrun _ hp | wake _ hp | close _ hp =>
    exact ⟨List.prefix_refl _, fun ho => by cases hp.symm.trans ho⟩

/-- What a store has been asked stays in its log. -/
theorem prefix_conclude {f : Option (Failure → Progress → σ × List Exchange →
      Outlook (σ × List Exchange))}
    (hf : ∀ g, f = some g → ∀ e p v, v.2 <+: (g e p v).state.2) (a : Attempt)
    (v : σ × List Exchange) : v.2 <+: (a.conclude f v).state.2 := by
  unfold Attempt.conclude
  split
  · exact List.prefix_refl _
  · exact List.prefix_refl _
  · exact List.prefix_refl _
  · split
    · exact List.prefix_refl _
    · exact hf _ rfl _ _ v

/-- An attempt is found in the log, whatever follows. -/
theorem prefix_saga (store : Store σ) (location : Location) (carry : Progress → Progress)
    (left : Nat) (p : Progress) (v : σ × List Exchange) :
    v.2 ++ [⟨(p.toTransfer location).nextRequest,
        (store.get (p.toTransfer location).nextRequest v.1).1⟩] <+:
      (saga store.logged location carry left p v).state.2 := by
  induction left generalizing p v with
  | zero =>
    exact prefix_conclude (f := none) (fun _ hg => by cases hg) _
      (store.logged.get (p.toTransfer location).nextRequest v).2
  | succ left ih =>
    rw [saga_eq]
    refine prefix_conclude ?_ _ (store.logged.get (p.toTransfer location).nextRequest v).2
    rintro g ⟨⟩ e p v
    exact (List.prefix_append _ _).trans (ih _ v)

/-- What an attempt asks first is in the log in the end, with its answer. -/
theorem mem_saga (store : Store σ) (location : Location) (carry : Progress → Progress) (left : Nat)
    (p : Progress) (v : σ × List Exchange) :
    ⟨(p.toTransfer location).nextRequest,
        (store.get (p.toTransfer location).nextRequest v.1).1⟩ ∈
      (saga store.logged location carry left p v).state.2 :=
  (prefix_saga store location carry left p v).subset
    (List.mem_append_right _ (List.mem_singleton_self _))

/-- The next request of a transfer and its answer are in the log in the end. -/
theorem mem_forecast (hp : t.phase = .opening) (v : σ × List Exchange) :
    ⟨t.nextRequest, (store.get t.nextRequest v.1).1⟩ ∈
      (forecast store.logged t v).state.2 := by
  have heq : (forecast store.logged t v).state =
      (saga store.logged t.plan.location id t.progress.retriesLeft t.progress.bare v).state := by
    simp only [forecast, outlook, hp, Outlook.behind]
  rw [heq]
  exact mem_saga store t.plan.location id t.progress.retriesLeft t.progress.bare v

end QueryResults.Download.Transfer
