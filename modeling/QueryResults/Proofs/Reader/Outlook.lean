import QueryResults.Proofs.Reader.Flow
import QueryResults.Proofs.Transfer.Single

/-!
# The outlook of a reader

A reader keeps the account of its attempts itself and leaves one attempt at a time to a transfer
without retries. What it will still receive is told by the same attempts as the outlook of a
transfer that has the account of the reader, except that the end of the object is learned anew with
each attempt.

The transfer knows nothing of the earlier attempts, so its forecast is an attempt that the reader
sees in their light (`Reader.Linked`). Waiting for a signal takes the signal off what is still to be
received, and a failure on which the reader starts again leaves it as it is.

## Main definitions

* `Reader.account`, `Reader.outlook`.
* `Reader.Linked`, `Reader.Going`: a reader, its transfer and what is still to be received.
* `Reader.Heard`: what waiting for a signal comes to.

## Main results

* `Reader.Linked.transition`, `Reader.Linked.next`, `Reader.Linked.of_terminal`: what the transfer
  does with what is still to be received.
* `Reader.Going.fill`: waiting for a signal.
-/

namespace QueryResults.Download

open Store

/-- Progress without the end of the object. -/
def Transfer.Progress.endless (p : Transfer.Progress) : Transfer.Progress :=
  { p with finish := none }

namespace Reader

variable {σ : Type} {store : Store σ} {r r' : Reader} {u u' : Transfer}
  {v v' : σ × List Exchange} {x : Transfer.Outlook (σ × List Exchange)}

/-- The account that a reader keeps of its attempts. -/
def account (r : Reader) : Transfer.Progress where
  delivered := r.position
  retriesLeft := 0
  etag := r.etag
  responded := r.responded
  failures := r.failures

/-- What a reader with nothing in its queue will still receive if it starts now. -/
def outlook (store : Store σ) (r : Reader) (v : σ × List Exchange) :
    Transfer.Outlook (σ × List Exchange) :=
  Transfer.saga store.logged r.location Transfer.Progress.endless r.retriesLeft r.account v

/-! ### A reader and its transfer -/

/-- The transfer of a reader, and what the reader will still receive: the attempt of the transfer,
seen in the light of the earlier ones. -/
structure Linked (store : Store σ) (x : Transfer.Outlook (σ × List Exchange)) (r : Reader)
    (u : Transfer) (v : σ × List Exchange) : Prop where
  coherent : u.Coherent
  single : u.Single
  location_eq : u.plan.location = r.location
  cancelled : u.cancelled = false
  steady : (∀ y ∈ v.2, y.IsSmooth) → u.Steady r.outstanding ∧ u.phase.Within u
  delivered : u.progress.delivered =
    r.position + .ofNat (r.queue.flatten ++ u.channel.flatMap Signal.bytes).length
  etag : ∀ tag, r.etag = some tag → u.progress.etag = some tag
  attempt : (∀ y ∈ v.2, y.IsSmooth) →
    ∃ (a : Transfer.Attempt) (w : σ × List Exchange) (before : Bool),
      Transfer.forecast store.logged u v = a.conclude none w ∧ [] ∉ a.chunks ∧
        a.progress.failures = [] ∧
        x = (a.mapProgress (.under before r.failures)).conclude
          (Transfer.again store.logged r.location Transfer.Progress.endless r.retriesLeft) w ∧
        (r.responded || u.progress.responded) = (before || u.progress.responded)

namespace Linked

/-- The transfer of a reader that has just started. -/
theorem restart (hq : r.queue = []) :
    Linked store (r.outlook store v) r.restart
      (.start ((Fetcher.ofSettings r.location r.settings).withRetries 0).plan r.position r.etag)
      v where
  coherent := .start _ _ _
  single := ⟨rfl, rfl, nofun⟩
  location_eq := rfl
  cancelled := rfl
  steady _ := ⟨.ofStart (Nat.le_max_right _ _), trivial⟩
  delivered := by
    change r.position = r.position + .ofNat (r.queue.flatten ++ []).length
    simp [hq]
  etag _ h := h
  attempt _ := by
    let p : Transfer.Progress := { delivered := r.position, retriesLeft := 0, etag := r.etag }
    let q := (p.toTransfer r.location).nextRequest
    refine ⟨p.answered r.location (store.logged.get q v).1, (store.logged.get q v).2, r.responded,
      rfl, Transfer.Progress.nil_notMem_answered _, Transfer.Progress.failures_answered _, ?_, rfl⟩
    have haccount : r.account = p.under r.responded r.failures := by
      simp [account, p, Transfer.Progress.under]
    have hq' : (r.account.toTransfer r.location).nextRequest = q := rfl
    rw [outlook, Transfer.saga_eq, hq', haccount, Transfer.Progress.answered_under]
    rfl

/-- Granting chunks where none are outstanding. -/
theorem grant (h : Linked store x r u v) (hout : r.outstanding = 0) {n : UInt64} :
    Linked store x { r with transfer := some (u.grant n), outstanding := n.toNat } (u.grant n)
      v where
  coherent := h.coherent.grant n
  single := ⟨h.single.retriesLeft, h.single.failures, h.single.phase⟩
  location_eq := h.location_eq
  cancelled := h.cancelled
  steady hp := by
    obtain ⟨hsteady, hwithin⟩ := h.steady hp
    have := (hout ▸ hsteady).grant (n := n) (by rw [Nat.zero_add]; exact n.toNat_lt)
    rw [Nat.zero_add] at this
    exact ⟨this, hwithin⟩
  delivered := h.delivered
  etag := h.etag
  attempt := h.attempt

/-- A step of the task changes nothing in what the reader will receive. -/
theorem transition (h : Linked store x r u v)
    (ht : Transfer.Transition store.logged u v u' v') : Linked store x r u' v' := by
  have hgrown := Transfer.grown_transition h.coherent.closing ht
  obtain ⟨hlog, hasked⟩ := Transfer.log_transition h.cancelled ht
  have hsmooth (hp : ∀ y ∈ v'.2, y.IsSmooth) (ho : u.phase = .opening) :
      Exchange.IsSmooth ⟨u.nextRequest, (store.logged.get u.nextRequest v).1⟩ := hp _ (hasked ho)
  have hwithin (hp : ∀ y ∈ v'.2, y.IsSmooth) : u'.phase.Within u' :=
    Transfer.within_transition (h.steady fun y hy => hp y (hlog.subset hy)).2
      (fun ho => (hsmooth hp ho).fits) ht
  exact
    { coherent := h.coherent.transition ht
      single := h.single.transition ht
      location_eq := (congrArg _ (Transfer.plan_transition ht)).trans h.location_eq
      cancelled := (Transfer.cancelled_transition ht).trans h.cancelled
      steady := fun hp =>
        ⟨(h.steady fun y hy => hp y (hlog.subset hy)).1.transition
          (Transfer.phase_ne_lost_of_within (hwithin hp)) h.coherent.closing
          (fun ho => (hsmooth hp ho).prompt) ht, hwithin hp⟩
      delivered := by
        obtain ⟨bytes, hd, hch⟩ := hgrown.bytes
        rw [hd, hch, h.delivered, UInt64.add_assoc, ← UInt64.ofNat_add, ← List.length_append,
          List.append_assoc]
      etag := fun tag htag => hgrown.etag tag (h.etag tag htag)
      attempt := fun hp => by
        obtain ⟨a, w, before, hforecast, hne, hfail, hx, hr⟩ :=
          h.attempt fun y hy => hp y (hlog.subset hy)
        have hgo := Transfer.phase_ne_lost_of_within (hwithin hp)
        refine ⟨a, w, before, ?_, hne, hfail, hx, ?_⟩
        · rw [Transfer.forecast_transition h.cancelled hgo h.coherent ht, hforecast]
        · cases hu : u.progress.responded with
          | true => rw [hgrown.responded hu, Bool.or_true, Bool.or_true]
          | false =>
            rw [hu, Bool.or_false, Bool.or_false] at hr
            rw [hr] }

theorem settle (h : Linked store x r u v) :
    Linked store x r (Transfer.settle store.logged u v).1 (Transfer.settle store.logged u v).2 :=
  Transfer.settle_induction (P := Linked store x r) (fun _ _ _ _ hu ht => hu.transition ht) h

/-- The transfer knows the tag that the reader knows. -/
theorem orElse_etag (h : Linked store x r u v) :
    (r.etag <|> u.progress.etag) = u.progress.etag := by
  cases hr : r.etag with
  | none => rfl
  | some tag => simp [h.etag tag hr]

/-- What the transfer has learned is noted. -/
theorem observe (h : Linked store x r u v) : Linked store x (r.observe u) u v where
  coherent := h.coherent
  single := h.single
  location_eq := h.location_eq
  cancelled := h.cancelled
  steady := h.steady
  delivered := h.delivered
  etag tag htag := h.orElse_etag ▸ htag
  attempt hp := by
    obtain ⟨a, w, before, hforecast, hne, hfail, hx, hr⟩ := h.attempt hp
    exact ⟨a, w, before, hforecast, hne, hfail, hx, by simp [Reader.observe, hr]⟩

/-- A chunk that is received goes from the channel to the queue. -/
theorem next (h : Linked store x r u v) (hp : ∀ y ∈ v.2, y.IsSmooth) {b : List UInt8}
    (hn : u.next = (.signal (.chunk b), u')) :
    ∃ x', x = x'.behind [.chunk b] ∧ b ≠ [] ∧
      Linked store x' { r with outstanding := r.outstanding - 1, queue := r.queue ++ [b] } u'
        v := by
  obtain ⟨a, w, before, hforecast, hne, hfail, hx, hr⟩ := h.attempt hp
  rw [Transfer.forecast_of_next hn] at hforecast
  obtain ⟨a, rfl, hrest⟩ := Transfer.Attempt.exists_after hforecast.symm
  have hx' := hx.trans (Transfer.Attempt.conclude_after _
    (a.mapProgress (Transfer.Progress.under before r.failures)) b w)
  obtain ⟨hsteady, hwithin⟩ := h.steady hp
  have hsteady' := (hsteady.next hn).2
  obtain ⟨rest, hch, rfl⟩ := Transfer.next_eq_signal hn
  refine ⟨_, hx', fun hb => hne (hb ▸ List.mem_cons_self), ?_⟩
  exact
    { coherent := h.coherent.next hn
      single := ⟨h.single.retriesLeft, h.single.failures, h.single.phase⟩
      location_eq := h.location_eq
      cancelled := h.cancelled
      steady := fun _ => ⟨hsteady', hwithin⟩
      delivered := by
        rw [h.delivered, hch]
        simp [Signal.bytes]
      etag := h.etag
      attempt := fun _ =>
        ⟨a, w, before, hrest.symm, fun hm => hne (List.mem_cons_of_mem _ hm), hfail, rfl, hr⟩ }

/-- What is received last decides what is still to be received. -/
theorem of_terminal (h : Linked store x r u v) (hp : ∀ y ∈ v.2, y.IsSmooth) {y : Signal}
    (hn : u.next = (.signal y, u')) (hy : y.isTerminal = true) :
    u.progress.delivered = r.position + .ofNat r.queue.flatten.length ∧
    x = ({ upshot := Transfer.upshotOf y,
           progress := u.progress.bare.under r.responded r.failures } :
          Transfer.Attempt).conclude
        (Transfer.again store.logged r.location Transfer.Progress.endless r.retriesLeft) v := by
  obtain ⟨a, w, before, hforecast, -, hfail, hx, hr⟩ := h.attempt hp
  obtain ⟨rest, hch, rfl⟩ := Transfer.next_eq_signal hn
  rw [h.coherent.forecast_of_terminal hch hy] at hforecast
  obtain ⟨rfl, rfl⟩ := Transfer.Attempt.eq_of_terminal hfail hy hforecast.symm
  have hunder : u.progress.bare.under r.responded r.failures =
      u.progress.bare.under before r.failures := by
    have hr' : (r.responded || u.progress.bare.responded) =
      (before || u.progress.bare.responded) := hr
    simp only [Transfer.Progress.under, hr']
  rw [hx, hunder, h.delivered, (h.coherent.eq_of_terminal hch hy).1]
  exact ⟨by simp [Signal.bytes_eq_nil hy], rfl⟩

end Linked

/-! ### A reader and what it will receive -/

/-- A reader that has neither failed nor reached the end, and what it will receive behind its
queue. -/
structure Going (store : Store σ) (x : Transfer.Outlook (σ × List Exchange)) (r : Reader)
    (v : σ × List Exchange) : Prop where
  failed : r.failed = none
  finished : r.finished = false
  chunks : [] ∉ r.queue
  idle : r.transfer = none → r.queue = [] ∧ r.outstanding = 0 ∧ x = r.outlook store v
  linked : ∀ u, r.transfer = some u → Linked store x r u v

/-- A reader that starts with nothing in its queue will receive what its outlook tells. -/
theorem Going.restart (hfailed : r.failed = none) (hfinished : r.finished = false)
    (hq : r.queue = []) : Going store (r.outlook store v) r.restart v where
  failed := hfailed
  finished := hfinished
  chunks := by
    rw [show r.restart.queue = [] from hq]
    exact List.not_mem_nil
  idle := nofun
  linked u hu := by
    cases hu
    exact .restart hq

/-- Granting demand changes nothing in what a reader will receive. -/
theorem Going.replenish (h : Going store x r v) : Going store x r.replenish v := by
  have granted {r : Reader} {u : Transfer} (h : Going store x r v) (hu : r.transfer = some u)
      (hout : r.outstanding = 0) :
      Going store x { r with transfer := some (u.grant (.ofNat r.batch)), outstanding := r.batch }
        v :=
    { failed := h.failed
      finished := h.finished
      chunks := h.chunks
      idle := nofun
      linked := fun w hw => by
        cases hw
        have hgrant := (h.linked u hu).grant hout (n := .ofNat r.batch)
        rwa [toNat_batch] at hgrant }
  rcases replenish_cases r with ⟨he, -⟩ | ⟨-, -, hout, u, hu, he⟩
  · rwa [he]
  · rw [he]
    cases hu with
    | current hu => exact granted h hu hout
    | fresh hnone hu =>
      obtain ⟨hq, -, rfl⟩ := h.idle hnone
      exact granted (r := r.restart) (.restart h.failed h.finished hq) hu rfl

/-- What waiting for a signal comes to. -/
inductive Heard (store : Store σ) (x : Transfer.Outlook (σ × List Exchange))
    (v : σ × List Exchange) : Filled Reader → Prop
  | chunk {r : Reader} {x' : Transfer.Outlook (σ × List Exchange)} {b : List UInt8}
      (hx : x = x'.behind [.chunk b]) (hq : r.queue = [b]) (h : Going store x' r v) :
      Heard store x v (.ready r)
  | finished {r : Reader} (hq : r.queue = []) (hx : x.signals = [.complete]) (hv : x.state = v) :
      Heard store x v (.ready r)
  | restarted {r : Reader} (hq : r.queue = []) (h : Going store x r v) :
      Heard store x v (.restarted r)
  | failed {r : Reader} {e : Failure} (hx : x.signals = [.failed e]) (hv : x.state = v) :
      Heard store x v (.failed e r)

/-- An attempt that fell short is followed by another one exactly where the outlook tells of one. -/
theorem Heard.resume {p : Transfer.Progress} {e : Failure} (hfailed : r.failed = none)
    (hfinished : r.finished = false) (hp : p.endless = r.account)
    (hx : x = ({ upshot := .fellShort e, progress := p } : Transfer.Attempt).conclude
      (Transfer.again store.logged r.location Transfer.Progress.endless r.retriesLeft) v) :
    Heard store x v (r.resume e) := by
  have hresponded : p.responded = r.responded := congrArg Transfer.Progress.responded hp
  have hfailures : p.failures = r.failures := congrArg Transfer.Progress.failures hp
  unfold Reader.resume
  obtain hzero | ⟨left, hleft⟩ : r.retriesLeft = 0 ∨ ∃ left, r.retriesLeft = left + 1 :=
    r.retriesLeft.eq_zero_or_eq_succ_pred.imp_right fun h => ⟨_, h⟩
  · rw [hzero] at hx
    rw [if_pos (.inr (.inr hzero))]
    exact .failed (by rw [hx, ← hfailures]; rfl) (by rw [hx]; rfl)
  · have hne : r.retriesLeft ≠ 0 := hleft ▸ Nat.succ_ne_zero left
    have hstop : (r.responded = false ∨ e.kind = .preconditionFailed ∨ r.retriesLeft = 0) ↔
        (p.responded = false ∨ e.kind = .preconditionFailed) := by
      simp only [hne, or_false, hresponded]
    simp only [hleft, Transfer.again, Transfer.Attempt.conclude] at hx
    by_cases hgive : p.responded = false ∨ e.kind = .preconditionFailed
    · rw [if_pos hgive] at hx
      rw [if_pos (hstop.2 hgive)]
      exact .failed (by rw [hx, hfailures]; rfl) (by rw [hx])
    · rw [if_neg hgive] at hx
      rw [if_neg (mt hstop.1 hgive)]
      let again : Reader :=
        { r with
          transfer := none, queue := [], queuedBytes := 0, retriesLeft := r.retriesLeft - 1
          failures := r.failures ++ [e] }
      have haccount : again.account = (p.noting e).endless :=
        (congrArg (fun p : Transfer.Progress => p.noting e) hp).symm
      have houtlook : x = again.outlook store v := by
        have hsub : again.retriesLeft = left := Nat.sub_eq_of_eq_add hleft
        rw [hx, outlook, haccount, hsub]
        rfl
      exact .restarted rfl (houtlook ▸ Going.restart (r := again) hfailed hfinished rfl)

/-- The next signal of the transfer is taken into account. -/
theorem Linked.hear (h : Linked store x r u v) (hfailed : r.failed = none)
    (hfinished : r.finished = false) (hq : r.queue = []) (hpos : 0 < r.outstanding)
    (hrest : u.step store.logged v = none) (hp : ∀ y ∈ v.2, y.IsSmooth) :
    Heard store x v (r.hear u) := by
  obtain ⟨hsteady, -⟩ := h.steady hp
  unfold Reader.hear
  obtain ⟨y, u', hn⟩ : ∃ y u', u.next = (y, u') := ⟨_, _, rfl⟩
  rw [hn]
  cases y with
  | notYet =>
    obtain ⟨left, hl⟩ := hsteady.exists_pausing hpos (Transfer.channel_eq_nil_of_next hn) hrest
    exact absurd hl (h.single.phase left)
  | signal y =>
    cases y with
    | chunk b =>
      obtain ⟨x', hx, hb, h'⟩ := h.next hp hn
      refine .chunk hx (by simp [Reader.observe, hq]) ?_
      exact
        { failed := hfailed
          finished := hfinished
          chunks := by simpa [receive, Reader.observe, hq, eq_comm] using hb
          idle := fun ht => by cases ht
          linked := fun w hw => by
            cases hw
            exact { h'.observe with } }
    | complete =>
      obtain ⟨-, hx⟩ := h.of_terminal hp hn rfl
      exact .finished (by simp [Reader.observe, hq]) (congrArg _ hx) (congrArg _ hx)
    | failed e =>
      obtain ⟨hd, hx⟩ := h.of_terminal hp hn rfl
      obtain ⟨-, hprogress, -⟩ := Transfer.next_frame hn
      refine .resume hfailed hfinished ?_ hx
      rw [hq] at hd
      simp only [Transfer.Progress.endless, Transfer.Progress.under, Transfer.Progress.bare,
        account, Reader.observe, hprogress, h.orElse_etag, hd]
      simp
  | _ =>
    obtain ⟨hch, hended⟩ := Transfer.next_eq_over hn hsteady.closed hsteady.cancelled
    obtain ⟨z, hz, -⟩ := hsteady.ended hended
    cases hch ▸ hz

/-- Waiting for a signal with an empty queue. -/
theorem Going.fill (h : Going store x r v) (hq : r.queue = [])
    (hp : ∀ y ∈ (Reader.fill store.logged r v).2.2, y.IsSmooth) :
    Heard store x (Reader.fill store.logged r v).2 (Reader.fill store.logged r v).1 := by
  obtain ⟨u, hu, hpos⟩ :=
    exists_transfer_replenish h.failed (fun ht => (h.idle ht).2.1) hq h.finished
  unfold Reader.fill listen at hp ⊢
  rw [hu] at hp ⊢
  exact (h.replenish.linked u hu).settle.hear h.replenish.failed h.replenish.finished
    ((queue_replenish r).trans hq) hpos (Transfer.step_settle _ _ _) hp

end Reader

end QueryResults.Download
