import QueryResults.Proofs.Reader.Flow
import QueryResults.Proofs.Reader.Standing
import QueryResults.Proofs.Transfer.Ledger

/-!
# The counts of a reader and of its transfer

A reader counts what it has queued, how far it has handed out, and how many chunks are still to come
of those it has granted. The task of its transfer counts by itself: the offset reached and the
demand left. What lies between the two, demand in the mailbox of the task and signals in its
channel, is counted by neither.

These counts fit together. The offset of the task is the position of the reader, behind which come
the bytes queued and the bytes in the channel; and what is outstanding for the reader is the credit
of its transfer. Steps of the task, grants of demand, signals taken and bytes handed out all keep
both.

## Main definitions

* `Transfer.HasFailed`: a transfer of which nothing but a failure is left.
* `Reader.Tallies`: the counts of a reader and those of its transfer.
* `Reader.Balanced`: the counts of a reader, with a transfer or without one.
* `Reader.Hears`: what becomes of a reader that takes the next signal.

## Main results

* `Transfer.credit_transition`: a step of the task leaves the credit as it is.
* `Balanced.transition`, `Balanced.replenish`, `Balanced.advance`, `Balanced.hears`.
-/

namespace QueryResults.Download

open Store

variable {σ : Type} {store : Store σ}

namespace Transfer

/-- A transfer that has failed: nothing but its failure is to come, or nothing at all, since its
task has broken down. -/
def HasFailed (t : Transfer) : Prop :=
  (∃ e, t.channel = [.failed e]) ∨ t.channel = [] ∧ t.phase = .lost

/-! ### Steps of the task -/

variable {t t' : Transfer} {s s' : σ}

/-- A step of the task hands over nothing, the chunk that is offered or the last signal. -/
theorem channel_transition (ht : Transition store t s t' s') :
    t'.channel = t.channel ∨ ∃ x, t'.channel = t.channel ++ [x] ∧
      ((∃ b body, t.phase = .offering b body ∧ x = .chunk b) ∨ t.phase = .closing x) := by
  cases ht with
  | hand hc hp hr hf | overrun hc hp hr hf => exact .inr ⟨_, rfl, .inl ⟨_, _, hp, rfl⟩⟩
  | close hc hp hr => exact .inr ⟨_, rfl, .inr hp⟩
  | accept hc hp ha hf | overflow hc hp ha hf => exact .inl rfl
  | fail hc hp => exact .inl (concluded_refused t _).channel_eq
  | reject hc hp ha => exact .inl (concluded_refused t _).channel_eq
  | finish hc hp hd hn => exact .inl (concluded_bodyEnded t.gathered).channel_eq
  | breakOff hc hp hd hn => exact .inl (concluded_retry t.gathered _).channel_eq
  | stop | ask | reach | skip | take | wake => exact .inl rfl

/-- Signals are put behind those in the channel. -/
theorem prefix_transition (ht : Transition store t s t' s') : t.channel <+: t'.channel := by
  rcases channel_transition ht with h | ⟨x, h, -⟩
  · rw [h]
  · rw [h]
    exact List.prefix_append _ _

/-- A step of the task leaves the credit as it is: a chunk handed over leaves the demand and enters
the channel. -/
theorem credit_transition (hlt : t.due < UInt64.size)
    (hoffering : ∀ b body, t.phase = .offering b body → 0 < t.progress.demand.toNat)
    (hclosing : ∀ last, t.phase = .closing last → last.isTerminal = true)
    (ht : Transition store t s t' s') : t'.credit = t.credit := by
  rcases channel_transition ht with hch | ⟨x, hch, ⟨b, body, hp, rfl⟩ | hp⟩
  · have hdue : t'.due = t.due := by
      have := due_gathered hlt
      rcases (due_transition ht hch).1 with h | h <;> omega
    rw [credit, credit, hdue, hch]
  · have hdue := (due_of_offering ht hp (hoffering b body hp) (by simp [hch])).1
    have hone : [Signal.chunk b].countP (!·.isTerminal) = 1 := rfl
    rw [credit, credit, hch, List.countP_append, hone]
    omega
  · have hzero : [x].countP (!·.isTerminal) = 0 := by simp [hclosing x hp]
    rw [credit, credit, hch, List.countP_append, hzero, (due_of_closing ht hp).1]
    rfl

end Transfer

namespace Reader

variable {r r' : Reader} {t t' : Transfer} {s s' : σ}

/-! ### The counts of a reader and of its transfer -/

/-- The counts of a reader and those of its transfer, which was neither cancelled nor received to
its end. -/
structure Tallies (r : Reader) (t : Transfer) : Prop where
  coherent : t.Coherent
  cancelled : t.cancelled = false
  closed : t.closed = false
  ended : t.phase = .ended → Transfer.Terminated t.channel
  offering : ∀ b body, t.phase = .offering b body → b ≠ [] ∧ 0 < t.progress.demand.toNat
  chunks : .chunk [] ∉ t.channel
  delivered : t.progress.delivered =
    r.position + .ofNat r.queuedBytes + .ofNat (t.channel.flatMap Signal.bytes).length
  credit : t.credit = r.outstanding
  outstanding_le : r.outstanding ≤ r.batch

namespace Tallies

theorem credit_lt (h : r.Tallies t) : t.credit < UInt64.size :=
  Nat.lt_of_le_of_lt (h.credit.le.trans h.outstanding_le)
    (Fetcher.capacity_lt r.location r.settings)

theorem due_lt (h : r.Tallies t) : t.due < UInt64.size :=
  Nat.lt_of_le_of_lt (Nat.le_add_right _ _) h.credit_lt

/-- A task that is over has left its last signal in the channel, or has broken down. -/
theorem phase_eq_lost (h : r.Tallies t) (hch : t.channel = []) (hover : t.isEnded = true) :
    t.phase = .lost := by
  refine (Transfer.isEnded_iff.1 hover).resolve_left fun hp => ?_
  obtain ⟨x, hx, -⟩ := h.ended hp
  rw [hch] at hx
  cases hx

/-- A transfer starts at the position, with nothing queued. -/
theorem restart (hb : r.queuedBytes = 0) (ht : r.restart.transfer = some t) :
    r.restart.Tallies t := by
  cases ht
  exact
    { coherent := .start _ _ _
      cancelled := rfl
      closed := rfl
      ended := nofun
      offering := nofun
      chunks := nofun
      delivered := by
        change r.position = r.position + .ofNat r.queuedBytes + .ofNat ([] : List UInt8).length
        simp [hb]
      credit := rfl
      outstanding_le := Nat.zero_le _ }

/-- Where nothing is outstanding, a batch is granted. -/
theorem grant (h : r.Tallies t) (hzero : r.outstanding = 0) :
    Tallies { r with transfer := some (t.grant (.ofNat r.batch)), outstanding := r.batch }
      (t.grant (.ofNat r.batch)) where
  coherent := h.coherent.grant _
  cancelled := h.cancelled
  closed := h.closed
  ended := h.ended
  offering := h.offering
  chunks := h.chunks
  delivered := h.delivered
  credit := by
    have hcredit := h.credit
    rw [hzero] at hcredit
    have hdue := Transfer.due_grant t (.ofNat r.batch)
    rw [toNat_batch] at hdue
    simp only [Transfer.credit, Transfer.grant] at *
    omega
  outstanding_le := Nat.le_refl _

/-- A step of the task. -/
theorem transition (h : r.Tallies t) (ht : Transfer.Transition store t s t' s') :
    r.Tallies t' where
  coherent := h.coherent.transition ht
  cancelled := (Transfer.cancelled_transition ht).trans h.cancelled
  closed := (Transfer.closed_transition ht).trans h.closed
  ended hp := by
    obtain ⟨last, hl, hch⟩ := Transfer.closing_of_transition ht hp h.cancelled
    exact ⟨last, by simp [hch], h.coherent.closing last hl⟩
  offering _ _ hp := Transfer.offering_of_transition ht hp
  chunks hmem := by
    rcases Transfer.channel_transition ht with hch | ⟨x, hch, hx⟩
    · exact h.chunks (hch ▸ hmem)
    · rw [hch, List.mem_append, List.mem_singleton] at hmem
      rcases hmem with hmem | rfl
      · exact h.chunks hmem
      · rcases hx with ⟨b, body, hp, hb⟩ | hp
        · cases hb
          exact (h.offering [] body hp).1 rfl
        · cases h.coherent.closing _ hp
  delivered := by
    obtain ⟨bytes, hd, hch⟩ := (Transfer.grown_transition h.coherent.closing ht).bytes
    rw [hd, h.delivered, hch, List.length_append, UInt64.ofNat_add, UInt64.add_assoc]
  credit := (Transfer.credit_transition h.due_lt (fun b body hp => (h.offering b body hp).2)
    h.coherent.closing ht).trans h.credit
  outstanding_le := h.outstanding_le

/-- A chunk that is received is outstanding no more, and goes from the channel to the queue. -/
theorem next (r' : Reader) (h : r.Tallies t) {b : List UInt8}
    (hn : t.next = (.signal (.chunk b), t')) (hposition : r'.position = r.position)
    (hsettings : r'.settings = r.settings) (hout : r'.outstanding = r.outstanding - 1)
    (hbytes : r'.queuedBytes = r.queuedBytes + b.length) :
    b ≠ [] ∧ 0 < r.outstanding ∧ r'.Tallies t' := by
  obtain ⟨rest, hch, rfl⟩ := Transfer.next_eq_signal hn
  have hcredit := h.credit
  have hone : t.credit = t.due + rest.countP (!·.isTerminal) + 1 := by
    rw [Transfer.credit, hch]
    simp [Signal.isTerminal, Nat.add_assoc]
  refine ⟨fun hnil => h.chunks (by simp [hch, hnil]), by omega, ?_⟩
  exact
    { coherent := h.coherent.next hn
      cancelled := h.cancelled
      closed := rfl
      ended := fun hp => by
        obtain ⟨x, hx, hterminal⟩ := h.ended hp
        rcases List.mem_cons.1 (hch ▸ hx) with rfl | hx
        · cases hterminal
        · exact ⟨x, hx, hterminal⟩
      offering := h.offering
      chunks := fun hmem => h.chunks (hch ▸ List.mem_cons_of_mem _ hmem)
      delivered := by
        rw [hposition, hbytes, h.delivered, hch]
        simp [Signal.bytes, UInt64.add_assoc]
      credit := by
        rw [hout]
        simp only [Transfer.credit, Transfer.due] at *
        omega
      outstanding_le := by
        have hle := h.outstanding_le
        simp only [batch, hsettings] at *
        omega }

end Tallies

/-- No more bytes are handed out than are queued. -/
theorem min_front_le (hb : r.queuedBytes = r.queue.flatten.length) (n : Nat) :
    min n r.front.length ≤ r.queuedBytes := by
  rw [hb, ← flatten_advance r n, List.length_append, List.length_take]
  exact Nat.le_add_right _ _

theorem queuedBytes_advance (hb : r.queuedBytes = r.queue.flatten.length) (n : Nat) :
    (r.advance n).queuedBytes = (r.advance n).queue.flatten.length := by
  have hsize : (r.advance n).queuedBytes = r.queuedBytes - min n r.front.length := rfl
  rw [hsize, hb, ← flatten_advance r n, List.length_append, List.length_take]
  exact Nat.add_sub_cancel_left _ _

/-- Handing out bytes of the queue. -/
theorem Tallies.advance (h : r.Tallies t) (hb : r.queuedBytes = r.queue.flatten.length) (n : Nat) :
    (r.advance n).Tallies t :=
  { h with
    delivered := by
      have hsize : min n r.front.length + (r.queuedBytes - min n r.front.length) = r.queuedBytes :=
        Nat.add_sub_cancel' (min_front_le hb n)
      rw [h.delivered, ← hsize, UInt64.ofNat_add, ← UInt64.add_assoc]
      rfl }

/-! ### The accounts of a reader -/

/-- The accounts of a reader: with a transfer, those of both; without one, there is nothing to hand
out, and nothing outstanding unless the reader has come to its end. -/
inductive Balanced (r : Reader) : Prop
  | idle (ht : r.transfer = none) (hq : r.queue = []) (hb : r.queuedBytes = 0)
      (hout : r.failed = none → r.finished = false → r.outstanding = 0)
  | going {t : Transfer} (ht : r.transfer = some t) (hfailed : r.failed = none)
      (hfinished : r.finished = false) (hq : [] ∉ r.queue)
      (hb : r.queuedBytes = r.queue.flatten.length) (h : r.Tallies t)

/-- Where there is nothing to hand out, something is to come of the transfer. -/
def IsSupplied (r : Reader) : Prop := ∀ t, r.transfer = some t → r.queue = [] → 0 < r.outstanding

namespace Balanced

theorem ofLocation (location : Location) (settings : Settings.Download) :
    Balanced (.ofLocation location settings) :=
  .idle rfl rfl rfl fun _ _ => rfl

theorem queuedBytes_eq (h : r.Balanced) : r.queuedBytes = r.queue.flatten.length := by
  cases h with
  | idle _ hq hb => rw [hb, hq]; rfl
  | going _ _ _ _ hb => exact hb

theorem tallies (h : r.Balanced) (ht : r.transfer = some t) : r.Tallies t := by
  cases h with
  | idle hnone => cases ht.symm.trans hnone
  | going ht' _ _ _ _ h =>
    obtain rfl := Option.some.inj (ht.symm.trans ht')
    exact h

/-- A step of the task. -/
theorem transition (h : r.Balanced) (ht : r.transfer = some t)
    (hstep : Transfer.Transition store t s t' s') :
    Balanced { r with transfer := some t' } := by
  cases h with
  | idle hnone => cases ht.symm.trans hnone
  | going ht' hfailed hfinished hq hb h =>
    obtain rfl := Option.some.inj (ht.symm.trans ht')
    exact .going rfl hfailed hfinished hq hb { h.transition hstep with }

/-- Granting demand keeps the accounts. -/
theorem replenish (h : r.Balanced) : r.replenish.Balanced := by
  rcases replenish_cases r with ⟨he, -⟩ | ⟨hfinished, hfailed, hzero, t, haddressee, he⟩
  · rw [he]
    exact h
  · rw [he]
    cases haddressee with
    | current ht =>
      cases h with
      | idle hnone => cases ht.symm.trans hnone
      | going ht' _ _ hq hb h =>
        obtain rfl := Option.some.inj (ht.symm.trans ht')
        exact .going rfl hfailed hfinished hq hb (h.grant hzero)
    | fresh hnone ht =>
      cases h with
      | idle _ hq hb =>
        have htallies := (Tallies.restart hb ht).grant rfl
        refine .going rfl hfailed hfinished (hq ▸ List.not_mem_nil) ?_ { htallies with }
        rw [hq, hb]
        rfl
      | going ht' => cases hnone.symm.trans ht'

/-- A reader that has granted demand where it had to is supplied. -/
theorem isSupplied_replenish (h : r.Balanced) : r.replenish.IsSupplied := by
  intro t ht hq
  rcases replenish_cases r with ⟨he, hwhy⟩ | ⟨-, -, -, u, -, he⟩
  · rw [he] at ht hq ⊢
    cases h with
    | idle hnone => cases ht.symm.trans hnone
    | going _ hfailed hfinished => simpa [hfailed, hfinished, hq] using hwhy
  · rw [he]
    exact Nat.le_max_right _ _

/-- Handing out bytes keeps the accounts. -/
theorem advance (h : r.Balanced) (n : Nat) : (r.advance n).Balanced := by
  cases h with
  | idle ht hq hb hout =>
    refine .idle ht ?_ ?_ hout
    · simp [Reader.advance, front, hq]
    · simp [Reader.advance, hb]
  | going ht hfailed hfinished hq hb h =>
    exact .going ht hfailed hfinished (Sound.nil_notMem_advance hq n) (queuedBytes_advance hb n)
      (h.advance hb n)

end Balanced

/-! ### Taking the next signal -/

/-- What becomes of a reader that takes the next thing that comes from its transfer: it has a chunk
to hand out, has come to the end, starts again for one of its retries, stays as it is where no
signal is there, or fails for good. -/
inductive Hears (r : Reader) (t : Transfer) : Filled Reader → Prop
  | chunk {b : List UInt8} {rest : List Signal} {r' : Reader} (hch : t.channel = .chunk b :: rest)
      (hne : b ≠ []) (h : r'.Balanced) (hq : r'.queue = [b])
      (hr : r'.retriesLeft = r.retriesLeft) : Hears r t (.ready r')
  | complete {r' : Reader} (hch : t.channel = [.complete]) (h : r'.Balanced)
      (hfinished : r'.finished = true) (ht : r'.transfer = none) (hq : r'.queue = [])
      (hr : r'.retriesLeft = r.retriesLeft) : Hears r t (.ready r')
  | restarted {r' : Reader} (hf : t.HasFailed) (h : r'.Balanced) (hfailed : r'.failed = none)
      (hfinished : r'.finished = false) (hq : r'.queue = []) (hposition : r'.position = r.position)
      (hr : r'.retriesLeft + 1 = r.retriesLeft) : Hears r t (.restarted r')
  | timedOut {e : Failure} (hch : t.channel = []) (hgo : t.isEnded = false)
      (hk : e.kind = .timeout) : Hears r t (.failed e r)
  | failed {e : Failure} {r' : Reader} (hf : t.HasFailed) (h : r'.Balanced)
      (ht : r'.transfer = none) (hr : r'.retriesLeft = r.retriesLeft) : Hears r t (.failed e r')

/-- A transfer that fails costs a retry, or is the last one. -/
theorem Hears.resume {e : Failure} (hf : t.HasFailed) (hfailed : r'.failed = none)
    (hfinished : r'.finished = false) (hposition : r'.position = r.position)
    (hr : r'.retriesLeft = r.retriesLeft) : Hears r t (r'.resume e) := by
  unfold Reader.resume
  split
  · exact .failed hf (.idle rfl rfl rfl fun hnone _ => by cases hnone) rfl hr
  · rename_i hgo
    rw [not_or, not_or] at hgo
    refine .restarted hf ?_ hfailed hfinished rfl hposition ?_
    · exact .going rfl hfailed hfinished List.not_mem_nil rfl (Tallies.restart rfl rfl)
    · have := hgo.2.2
      simp only [restart]
      omega

/-- The next signal of the transfer is taken into account. -/
theorem Balanced.hears (h : r.Balanced) (ht : r.transfer = some t) (hfailed : r.failed = none)
    (hfinished : r.finished = false) (hq : r.queue = []) : Hears r t (r.hear t) := by
  have htallies := h.tallies ht
  have hzero : r.queuedBytes = 0 := by rw [h.queuedBytes_eq, hq]; rfl
  unfold Reader.hear
  obtain ⟨x, t', hn⟩ : ∃ x t', t.next = (x, t') := ⟨_, _, rfl⟩
  simp only [hn]
  cases x with
  | notYet =>
    obtain rfl := Transfer.eq_of_next_notYet hn
    have hch := Transfer.channel_eq_nil_of_next hn
    have hsame : { r with transfer := some t' } = r := by rw [← ht]
    simp only [receive, hsame]
    exact .timedOut hch (Transfer.isEnded_of_next_notYet hn) rfl
  | signal x =>
    obtain ⟨rest, hch, -⟩ := Transfer.next_eq_signal hn
    cases x with
    | chunk b =>
      obtain ⟨hne, -, hnext⟩ := htallies.next
        { Reader.observe { r with transfer := some t' } t' with
          outstanding := r.outstanding - 1
          queuedBytes := r.queuedBytes + b.length
          queue := r.queue ++ [b] } hn rfl rfl rfl rfl
      refine .chunk hch hne (.going rfl hfailed hfinished ?_ ?_ hnext) ?_ rfl
      · simpa [receive, observe, hq, eq_comm] using hne
      · simp [observe, hq, hzero]
      · simp [observe, hq]
    | complete =>
      obtain ⟨hch, -⟩ := htallies.coherent.eq_of_terminal hch rfl
      exact .complete hch (.idle rfl hq hzero fun _ hgo => by cases hgo) rfl rfl hq rfl
    | failed e =>
      obtain ⟨hch, -⟩ := htallies.coherent.eq_of_terminal hch rfl
      exact .resume (.inl ⟨e, hch⟩) hfailed hfinished rfl rfl
  | _ =>
    obtain ⟨hch, hover⟩ := Transfer.next_eq_over hn htallies.closed htallies.cancelled
    exact .resume (.inr ⟨hch, htallies.phase_eq_lost hch hover⟩) hfailed hfinished rfl rfl

end Reader

end QueryResults.Download
