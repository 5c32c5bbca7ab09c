import QueryResults.Proofs.Fetcher.Protocol
import QueryResults.Proofs.Transfer.Outlook

/-!
# What a download comes to

All courses of a download that is not cancelled come to the same: as soon as the last signal is
received, the signals received and the requests made are those of the outlook, whatever the order
of the acts. If no exchange is left hanging or overruns, receiving the whole download gets there,
with the bytes or the failure that the outlook tells.

## Main definitions

* `Transfer.exchanges`: the exchanges with the store in a list of events.
* `Course.Foreseen`: the forecast between what has happened and what is still to come.
* `Fetcher.outlook`: the outlook of a download that is not yet begun.

## Main results

* `Fetcher.course_eq_outlook`: any course that has received the last signal.
* `Fetcher.fetchAll_eq_outlook`: receiving the whole download.
-/

namespace QueryResults.Download

open Store

variable {σ : Type} {store : Store σ}

/-- What came of a download with its last signal, given all the bytes before. -/
def Signal.verdict (bytes : List UInt8) : Signal → Except Failure (List UInt8)
  | failed e => .error e
  | _ => .ok bytes

namespace Transfer

variable {t t' : Transfer} {s s' : σ} {c : Course σ} {x : Outlook (σ × List Exchange)}

/-! ### Courses -/

/-- The exchange of an event in which the store is asked. -/
def Event.exchange : Event → Option Exchange
  | asked x => some x
  | _ => none

/-- The exchanges with the store in the order in which they took place. -/
def exchanges (events : List Event) : List Exchange := events.filterMap Event.exchange

@[simp] theorem exchanges_append (l l' : List Event) :
    exchanges (l ++ l') = exchanges l ++ exchanges l' := List.filterMap_append

@[simp] theorem exchanges_singleton (x : Event) : exchanges [x] = x.exchange.toList := by
  cases h : x.exchange <;> simp only [exchanges, List.filterMap_cons, h] <;> rfl

/-- A step of the task makes the same requests whatever is in the log. -/
theorem transition_log {l l' : List Exchange}
    (ht : Transition store.logged t (s, l) t' (s', l')) (k : List Exchange) :
    Transition store.logged t (s, k ++ l) t' (s', k ++ l') := by
  cases ht with
  | stop hc hp => exact .stop hc hp
  | ask hc hp =>
    have h : Transition store.logged t (s, k ++ l) _ _ := .ask hc hp
    rwa [show (store.logged.get t.nextRequest (s, k ++ l)).2 =
      ((store.get t.nextRequest s).2, k ++ (l ++ [⟨t.nextRequest, (store.get t.nextRequest s).1⟩]))
      from by simp [logged]] at h
  | fail hc hp => exact .fail hc hp
  | accept hc hp ha hf => exact .accept hc hp ha hf
  | overflow hc hp ha hf => exact .overflow hc hp ha hf
  | reject hc hp ha => exact .reject hc hp ha
  | reach hc hp hd => exact .reach hc hp hd
  | finish hc hp hd hn => exact .finish hc hp hd hn
  | breakOff hc hp hd hn => exact .breakOff hc hp hd hn
  | skip hc hp hd hn => exact .skip hc hp hd hn
  | take hc hp hd hn => exact .take hc hp hd hn
  | hand hc hp hr hf => exact .hand hc hp hr hf
  | overrun hc hp hr hf => exact .overrun hc hp hr hf
  | wake hc hp hl => exact .wake hc hp hl
  | close hc hp hr => exact .close hc hp hr

theorem exchanges_shown (xs : List Exchange) (ys : List Signal) :
    exchanges (xs.map .asked ++ ys.map .handed) = xs := by
  simp [exchanges, Event.exchange, Function.comp_def]

theorem receivedSignals_shown (xs : List Exchange) (ys : List Signal) :
    receivedSignals (xs.map .asked ++ ys.map .handed) = [] := by
  simp [receivedSignals]

/-- As long as a transfer is not cancelled and has not broken down, what was received and what the
forecast tells make up the outlook it had at its start. -/
structure Course.Foreseen (store : Store σ) (x : Outlook (σ × List Exchange)) (c : Course σ) :
    Prop where
  coherent : c.transfer.Coherent
  forecast : c.transfer.cancelled = false → c.transfer.phase ≠ .lost →
    (forecast store.logged c.transfer (c.outside, exchanges c.events)).behind
      (receivedSignals c.events) = x

namespace Course.Foreseen

theorem work (h : c.Foreseen store x) : (c.work store).Foreseen store x := by
  unfold Course.work
  split
  · exact h
  · rename_i t' outside xs hs
    have ht := transition_of_step hs
    have ht' := transition_log ht (exchanges c.events)
    rw [List.append_nil] at ht'
    refine ⟨h.coherent.transition ht, fun hc hgo => ?_⟩
    have hc' : c.transfer.cancelled = false := cancelled_transition ht ▸ hc
    have hgo' : c.transfer.phase ≠ .lost := fun hp =>
      Bool.false_ne_true ((isEnded_eq_false_of_transition ht).symm.trans (isEnded_iff.2 (.inr hp)))
    simp only [List.append_assoc, exchanges_append c.events, receivedSignals_append c.events,
      exchanges_shown, receivedSignals_shown, List.append_nil]
    rw [forecast_transition hc' hgo h.coherent ht']
    exact h.forecast hc' hgo'

/-- Every act keeps the forecast. -/
theorem act (h : c.Foreseen store x) (a : Act) : (c.act store a).Foreseen store x := by
  cases a with
  | work => exact h.work
  | pass span =>
    refine ⟨h.coherent.lapse span, fun hc hgo => ?_⟩
    have hc' : c.transfer.cancelled = false := cancelled_lapse c.transfer span ▸ hc
    have hgo' : c.transfer.phase ≠ .lost := fun hp => hgo (by simp [Course.act, lapse, hp])
    exact (congrArg (Outlook.behind _) (forecast_lapse _ _ _)).trans (h.forecast hc' hgo')
  | request n =>
    simp only [Course.act]
    split
    · rename_i u hu
      unfold Transfer.request at hu
      split at hu
      · cases hu
      · cases hu
        refine ⟨h.coherent.grant n, fun hc hgo => ?_⟩
        rw [← h.forecast hc hgo, forecast_grant]
        simp [Event.exchange]
    · exact h
  | next =>
    obtain ⟨y, u, hn⟩ : ∃ y u, c.transfer.next = (y, u) := ⟨_, _, rfl⟩
    simp only [Course.act, hn]
    refine ⟨h.coherent.next hn, fun hc hgo => ?_⟩
    have hc' : c.transfer.cancelled = false := cancelled_next hn ▸ hc
    have hgo' : c.transfer.phase ≠ .lost := (next_frame hn).2.2.1 ▸ hgo
    rw [← h.forecast hc' hgo', forecast_received hn, Outlook.behind_behind]
    simp [Event.exchange]
  | cancel => exact ⟨{ h.coherent with }, fun hc => by cases hc⟩

/-- Every course keeps the forecast. -/
theorem run (h : c.Foreseen store x) (acts : List Act) : (c.run store acts).Foreseen store x := by
  induction acts generalizing c with
  | nil => exact h
  | cons a acts ih => exact ih (h.act a)

/-- Once the last signal is received, nothing is to come any more. -/
theorem eq_of_terminated (h : c.Foreseen store x) {offset : Nat} (ho : c.Orderly offset)
    (hx : .cancelled ∉ c.events) (hlast : Terminated (receivedSignals c.events)) :
    receivedSignals c.events = x.signals ∧ (c.outside, exchanges c.events) = x.state := by
  have hc : c.transfer.cancelled = false := by
    rw [← Bool.not_eq_true]
    exact fun hc => hx (ho.cancelled.1 hc)
  have hp : c.transfer.phase = .ended := by
    refine ho.ended ?_
    rw [ho.handed, terminated_append]
    exact .inl hlast
  have hch : c.transfer.channel = [] := by
    obtain ⟨y, hy, hy'⟩ := hlast
    have hall := ho.last
    rw [ho.handed, List.pairwise_append] at hall
    exact List.eq_nil_iff_forall_not_mem.2 fun z hz =>
      Bool.false_ne_true ((hall.2.2 y hy z hz).symm.trans hy')
  rw [← h.forecast hc (by rw [hp]; exact nofun)]
  simp [Transfer.forecast, outlook, hp, hch, Outlook.behind]

end Course.Foreseen

/-! ### Receiving the whole download -/

/-- A transfer that nothing but its pauses can hold up and nothing breaks down, with its
forecast. -/
structure Foretold (store : Store σ) (x : Outlook (σ × List Exchange)) (credit : Nat)
    (t : Transfer) (v : σ × List Exchange) : Prop where
  coherent : t.Coherent
  steady : t.Steady credit
  within : t.phase.Within t
  forecast : forecast store.logged t v = x

namespace Foretold

variable {credit : Nat} {v v' : σ × List Exchange}

theorem transition (hx : ∀ y ∈ x.state.2, y.IsSmooth) (h : Foretold store x credit t v)
    (ht : Transition store.logged t v t' v') : Foretold store x credit t' v' := by
  have hsmooth (hp : t.phase = .opening) :
      Exchange.IsSmooth ⟨t.nextRequest, (store.logged.get t.nextRequest v).1⟩ :=
    hx _ (h.forecast ▸ mem_forecast hp v)
  have hwithin := within_transition h.within (fun hp => (hsmooth hp).fits) ht
  have hgo := phase_ne_lost_of_within hwithin
  exact
    { coherent := h.coherent.transition ht
      steady := h.steady.transition hgo h.coherent.closing (fun hp => (hsmooth hp).prompt) ht
      within := hwithin
      forecast := (forecast_transition h.steady.cancelled hgo h.coherent ht).trans h.forecast }

theorem settle (hx : ∀ y ∈ x.state.2, y.IsSmooth) (h : Foretold store x credit t v) :
    Foretold store x credit (settle store.logged t v).1 (settle store.logged t v).2 :=
  settle_induction (P := Foretold store x credit) (fun _ _ _ _ hu ht => hu.transition hx ht) h

/-- Ending a pause and going on. -/
theorem wake (hx : ∀ y ∈ x.state.2, y.IsSmooth) (h : Foretold store x credit t v)
    {left : Duration} (hl : t.pauseLeft = some left) :
    Foretold store x credit (t.wake store.logged v).1 (t.wake store.logged v).2 := by
  have hp := phase_of_pauseLeft hl
  refine settle (t := { t with phase := .opening }) hx ⟨?_, ?_, trivial, ?_⟩
  · exact h.coherent.of_phase (by rw [hp]; exact nofun) rfl h.coherent.failures nofun nofun nofun
  · exact h.steady.of_phase rfl rfl rfl rfl rfl rfl trivial
  · rw [← h.forecast]
    simp only [Transfer.forecast, outlook, hp]

/-- Receiving a chunk and granting another. -/
theorem next_grant (h : Foretold store x credit t v) {b : List UInt8}
    (hn : t.next = (.signal (.chunk b), t')) :
    Foretold store (Transfer.forecast store.logged t' v) credit (t'.grant 1) v := by
  obtain ⟨hpos, hsteady⟩ := h.steady.next hn
  obtain ⟨hplan, hprogress, hphase, -⟩ := next_frame hn
  have hgrant : credit - 1 + (1 : UInt64).toNat = credit := Nat.sub_add_cancel hpos
  exact
    { coherent := (h.coherent.next hn).grant 1
      steady := hgrant ▸ hsteady.grant (hgrant.symm ▸ h.steady.credit_lt)
      within := Phase.Within.congr h.within hplan hprogress hphase
      forecast := rfl }

/-- What ends with its only signal has no chunks. -/
theorem eq_of_singleton {y last : Signal} {chunks : List (List UInt8)}
    (h : [y] = chunks.map Signal.chunk ++ [last]) : chunks = [] ∧ last = y := by
  cases chunks with
  | nil => exact ⟨rfl, (List.cons.inj h).1.symm⟩
  | cons c chunks => simp at h

/-- Collecting comes to what the forecast tells. -/
theorem collect (hx : ∀ y ∈ x.state.2, y.IsSmooth) (hpos : 0 < credit)
    (h : Foretold store x credit t v) (hrest : t.step store.logged v = none)
    {chunks : List (List UInt8)} {last : Signal} (hs : x.signals = chunks.map .chunk ++ [last])
    (hlast : last.isTerminal = true) (before : List (List UInt8)) :
    (t.collect store.logged before v).1.result =
        some (last.verdict (before.reverse.flatten ++ chunks.flatten)) ∧
      (t.collect store.logged before v).2 = x.state := by
  fun_induction Transfer.collect store.logged before t v generalizing x chunks with
  | case1 before t v b t' hn rested =>
    rename_i ih
    have hnext := h.next_grant hn
    have heq := h.forecast.symm.trans (forecast_of_next hn v)
    cases chunks with
    | nil =>
      rw [heq] at hs
      obtain rfl : last = .chunk b := (List.cons.inj hs).1.symm
      cases hlast
    | cons c chunks =>
      rw [heq] at hs hx ⊢
      obtain ⟨hb, hs'⟩ := List.cons.inj hs
      cases hb
      have hx' : ∀ y ∈ (Transfer.forecast store.logged t' v).state.2, y.IsSmooth := hx
      have hrec := ih hx' (hnext.settle hx') (step_settle _ _ _) hs'
      simpa [Outlook.behind] using hrec
  | case2 before t v t' hn =>
    obtain ⟨rest, hch, -⟩ := next_eq_signal hn
    rw [← h.forecast, h.coherent.forecast_of_terminal hch rfl] at hs ⊢
    obtain ⟨rfl, rfl⟩ := eq_of_singleton hs
    simp [Signal.verdict]
  | case3 before t v e t' hn =>
    obtain ⟨rest, hch, -⟩ := next_eq_signal hn
    rw [← h.forecast, h.coherent.forecast_of_terminal hch rfl] at hs ⊢
    obtain ⟨rfl, rfl⟩ := eq_of_singleton hs
    simp [Signal.verdict]
  | case4 before t v t' hn =>
    obtain ⟨hch, hended⟩ := next_eq_over hn h.steady.closed h.steady.cancelled
    obtain ⟨y, hy, -⟩ := h.steady.ended hended
    cases hch ▸ hy
  | case5 before t v t' hn hpause =>
    obtain ⟨left, hphase⟩ := h.steady.exists_pausing hpos (channel_eq_nil_of_next hn) hrest
    simp [pauseLeft, hphase] at hpause
  | case6 before t v t' hn left hpause woken rest =>
    rename_i ih
    exact ih hx (h.wake hx hpause) (step_settle _ _ _) hs

end Foretold

end Transfer

namespace Fetcher

variable {f : Fetcher} {s : σ}

/-- What a download will come to. -/
def outlook (store : Store σ) (f : Fetcher) (s : σ) : Transfer.Outlook (σ × List Exchange) :=
  Transfer.saga store.logged f.plan.location id f.plan.maxRetries
    { delivered := f.offset, retriesLeft := 0, etag := f.etag } (s, [])

theorem course_foreseen (f : Fetcher) (store : Store σ) (s : σ) (acts : List Transfer.Act) :
    ((f.course s).run store acts).Foreseen store (f.outlook store s) := by
  have hstart : (f.course s).Foreseen store (f.outlook store s) :=
    ⟨.start f.plan f.offset f.etag, fun _ _ => rfl⟩
  exact hstart.run acts

/-- Any course of a download that has received the last signal and was not cancelled has received
the signals of the outlook and has made its requests. -/
theorem course_eq_outlook (acts : List Transfer.Act)
    (hx : .cancelled ∉ ((f.course s).run store acts).events)
    (hlast : Transfer.Terminated
      (Transfer.receivedSignals ((f.course s).run store acts).events)) :
    Transfer.receivedSignals ((f.course s).run store acts).events =
        (f.outlook store s).signals ∧
      Transfer.exchanges ((f.course s).run store acts).events = (f.outlook store s).state.2 := by
  have h := f.course_foreseen store s acts
  obtain ⟨hsignals, hstate⟩ :=
    h.eq_of_terminated (f.course_orderly store s acts) hx hlast
  exact ⟨hsignals, congrArg Prod.snd hstate⟩

/-- If no exchange is left hanging or overruns, receiving the whole download comes to what the
outlook tells. -/
theorem fetchAll_eq_outlook (hsub : f.subscribed = false) (hpos : 0 < f.plan.capacity)
    (hlt : f.plan.capacity < UInt64.size)
    (hx : ∀ y ∈ (f.outlook store s).state.2, y.IsSmooth) {chunks : List (List UInt8)}
    {last : Signal} (hs : (f.outlook store s).signals = chunks.map .chunk ++ [last])
    (hlast : last.isTerminal = true) :
    (f.fetchAll store s).1.result = some (last.verdict chunks.flatten) ∧
      f.exchanges store s = (f.outlook store s).state.2 := by
  have hsteady : Transfer.Steady (UInt64.ofNat f.plan.capacity).toNat
      ((Transfer.start f.plan f.offset f.etag).grant (.ofNat f.plan.capacity)) := .start hpos
  rw [UInt64.toNat_ofNat_of_lt' hlt] at hsteady
  have hstart : Transfer.Foretold store (f.outlook store s) f.plan.capacity
      ((Transfer.start f.plan f.offset f.etag).grant (.ofNat f.plan.capacity)) (s, []) :=
    ⟨(Transfer.Coherent.start _ _ _).grant _, hsteady, trivial, rfl⟩
  obtain ⟨hresult, hstate⟩ := (hstart.settle hx).collect hx hpos
    (Transfer.step_settle _ _ _) hs hlast []
  rw [← fetchAll_logged]
  simp only [exchanges, fetchAll, subscribe, hsub]
  exact ⟨hresult, congrArg Prod.snd hstate⟩

end Fetcher

end QueryResults.Download
