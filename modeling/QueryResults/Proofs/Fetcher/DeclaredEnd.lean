import QueryResults.Proofs.Fetcher.Version
import QueryResults.Proofs.Store.Scripted

/-!
# Declared ends

The end of an object is recorded once, from the first accepted response that declares a length, as
the sum of the offset reached and that length. Offsets are words, and so is this sum.

A recorded end is exact. A body that ends before it is a failure, and the download does not complete
before it, whatever is done and whatever later responses declare or leave out. A sum that is no word
is not recorded, and the response is not rejected either: the task breaks down, asks for nothing and
hands over nothing any more, not even a failure.

## Main definitions

* `Course.ReachesEnd`: a download that completes only behind its end.
* `Course.BreaksDown`: a download of which nothing more is heard.

## Main results

* `Fetcher.course_end`: what the completion of a download rests on.
* `Course.finish_run`: a recorded end stays.
* `Fetcher.records_end`: what a declared length makes of the end of a download.
-/

namespace QueryResults.Download

open Store

variable {σ : Type} {store : Store σ}

namespace Transfer

variable {t t' : Transfer} {s s' : σ} {c : Course σ} {finish : UInt64}

/-! ### The recorded end -/

theorem Concluded.finish_eq (h : t.Concluded t') : t'.progress.finish = t.progress.finish := by
  cases h <;> rfl

/-- A step of the task leaves a recorded end as it is. -/
theorem finish_transition (ht : Transition store t s t' s')
    (h : t.progress.finish = some finish) : t'.progress.finish = some finish := by
  rw [← h]
  cases ht with
  | accept hc hp ha hf =>
    obtain ⟨rfl, -⟩ := accept_eq_ok ha
    simp [h]
  | fail hc hp => exact (concluded_refused t _).finish_eq
  | reject hc hp ha => exact (concluded_refused t _).finish_eq
  | finish hc hp hd hn => exact (concluded_bodyEnded t.gathered).finish_eq
  | breakOff hc hp hd hn => exact (concluded_retry t.gathered _).finish_eq
  | stop | ask | overflow | reach | skip | take | hand | overrun | wake | close => rfl

/-- No act changes a recorded end. -/
theorem Course.finish_act (h : c.transfer.progress.finish = some finish) (a : Act) :
    (c.act store a).transfer.progress.finish = some finish := by
  cases a with
  | work =>
    change (c.work store).transfer.progress.finish = some finish
    rcases Course.act_work store c with he | ⟨t', s', xs, ht, hcases⟩
    · rwa [he]
    · have hfinish := finish_transition ht h
      rcases hcases with ⟨he, -⟩ | ⟨answer, -, -, -, he⟩ | ⟨y, -, -, he⟩ <;> rwa [he]
  | pass span => exact (congrArg Progress.finish (progress_lapse c.transfer span)).trans h
  | request n =>
    simp only [Course.act, Transfer.request]
    by_cases hn : n = 0 <;> simpa [hn, grant] using h
  | next =>
    obtain ⟨-, hprogress, -⟩ := next_frame (t := c.transfer) rfl
    exact (congrArg Progress.finish hprogress).trans h
  | cancel => exact h

/-- A recorded end stays, whatever is done. -/
theorem Course.finish_run (h : c.transfer.progress.finish = some finish) (acts : List Act) :
    (c.run store acts).transfer.progress.finish = some finish := by
  induction acts generalizing c with
  | nil => exact h
  | cons a acts ih => exact ih (c.finish_act h a)

/-! ### Ends that are reached -/

/-- No end is declared behind the offset at which a download has completed. -/
theorem Course.Traced.finish_le {offset : Nat} {known : Option String} (h : c.Traced offset known)
    (hcomplete : .handed .complete ∈ c.events) {finish : Nat}
    (hfinish : endAfter (exchanges c.events) = some finish) :
    finish ≤ offset + (handedBytes c.events).length := by
  have hmem : .complete ∈ handedSignals c.events :=
    List.mem_filterMap.2 ⟨.handed .complete, hcomplete, rfl⟩
  have hp : c.transfer.phase = .ended := h.orderly.ended ⟨.complete, hmem, rfl⟩
  have hdelivered := h.orderly.counted.delivered (by rw [hp]; exact nofun)
  obtain ⟨done, x, r, -, -, -, ⟨finish', hfinish', hle⟩ | ⟨hnone, -⟩⟩ := h.signals .complete hmem
  · obtain rfl := Option.some.inj (hfinish.symm.trans hfinish')
    exact hdelivered ▸ hle
  · cases hfinish.symm.trans hnone

/-- A download from an offset that completes only behind its end, and to which a body that ends
before it is a failure, whatever is done. -/
structure Course.ReachesEnd (store : Store σ) (offset finish : Nat) (c : Course σ) : Prop where
  complete : ∀ acts, .handed .complete ∈ (c.run store acts).events →
    finish ≤ offset + (handedBytes (c.run store acts).events).length
  short : ∀ acts,
    let d := c.run store acts
    let location := d.transfer.plan.location
    let reached := d.transfer.progress.delivered
    d.transfer.phase = .reading [] → d.transfer.Polls →
      reached.toNat < finish ∧
        (d.act store .work).transfer =
          d.transfer.gathered.retry
            (.io s!"Body of {location} ended at offset {reached} of {finish}")

/-- Only the task hands something over, asks for something, or makes progress. -/
theorem Course.act_frame (c : Course σ) (store : Store σ) {a : Act} (ha : a ≠ .work) :
    (c.act store a).transfer.progress = c.transfer.progress ∧
      handedSignals (c.act store a).events = handedSignals c.events ∧
      exchanges (c.act store a).events = exchanges c.events ∧
      ((c.act store a).transfer.phase = c.transfer.phase ∨
        ∃ left, c.transfer.phase = .pausing left) := by
  cases a with
  | work => exact absurd rfl ha
  | pass span =>
    refine ⟨progress_lapse c.transfer span, rfl, rfl, ?_⟩
    simp only [Course.act, lapse]
    split
    · exact .inr ⟨_, ‹_›⟩
    · exact .inl rfl
  | request n =>
    simp only [Course.act, Transfer.request]
    by_cases hn : n = 0 <;> simp [hn, grant, Event.exchange]
  | next =>
    obtain ⟨-, hprogress, hphase, -⟩ := next_frame (t := c.transfer) rfl
    exact ⟨hprogress, by simp [Course.act], by simp [Course.act, Event.exchange], .inl hphase⟩
  | cancel => exact ⟨rfl, by simp [Course.act], by simp [Course.act, Event.exchange], .inl rfl⟩

/-- A task that has handed over its last signal has recorded the end that the exchanges declare. -/
def Course.Recorded (c : Course σ) : Prop :=
  Terminated (handedSignals c.events) →
    c.transfer.progress.finish.map UInt64.toNat = endAfter (exchanges c.events)

theorem Course.Recorded.act {offset : Nat} {known : Option String} (h : c.Recorded)
    (hc : c.Traced offset known) (store : Store σ) (a : Act) : (c.act store a).Recorded := by
  by_cases ha : a = .work
  · subst ha
    intro hlast
    by_cases hbefore : Terminated (handedSignals c.events)
    · -- The task has ended, so it makes no step.
      have hsame : c.act store .work = c := by
        rcases Course.act_work store c with he | ⟨t', s', xs, ht, -⟩
        · exact he
        · exact absurd (hc.orderly.ended hbefore) (phase_ne_ended_of_transition ht)
      rw [hsame]
      exact h hbefore
    · have hwork := hc.work store
      have hphase := hwork.recalls.phase
      rw [hwork.orderly.ended hlast] at hphase
      rcases hphase with hcancelled | hknows
      · -- A cancelled task hands over nothing.
        refine absurd ?_ hbefore
        rcases Course.act_work store c with he | ⟨t', s', xs, ht, hcases⟩
        · exact he ▸ hlast
        · have hgone := (c.cancelled_work store).symm.trans hcancelled
          obtain ⟨rfl, -⟩ := eq_of_transition_of_cancelled hgone ht
          rcases hcases with ⟨he, -⟩ | ⟨answer, -, -, -, he⟩ | ⟨y, hch, -⟩
          · simpa [Course.act, he] using hlast
          · simpa [Course.act, he] using hlast
          · simp at hch
      · exact hknows.finish
  · obtain ⟨hprogress, hhanded, hexchanges, -⟩ := c.act_frame store ha
    rw [Recorded, hprogress, hhanded, hexchanges]
    exact h

theorem Course.Recorded.run {offset : Nat} {known : Option String} (h : c.Recorded)
    (hc : c.Traced offset known) (store : Store σ) (acts : List Act) :
    (c.run store acts).Recorded := by
  induction acts generalizing c with
  | nil => exact h
  | cons a acts ih => exact ih (h.act hc store a) (hc.act store a)

/-- A body that has ended before the recorded end is a failure. -/
theorem Course.work_of_short (store : Store σ) (hfinish : c.transfer.progress.finish = some finish)
    (hp : c.transfer.phase = .reading []) (hpolls : c.transfer.Polls) :
    let location := c.transfer.plan.location
    let reached := c.transfer.progress.delivered
    reached.toNat < finish.toNat ∧
      (c.work store).transfer =
        c.transfer.gathered.retry
          (.io s!"Body of {location} ended at offset {reached} of {finish.toNat}") := by
  obtain ⟨hc, -, hd, hn⟩ := polls_iff.1 hpolls
  have hlt : c.transfer.progress.delivered < finish := by
    simpa [Progress.isComplete, hfinish] using hd
  refine ⟨UInt64.lt_iff_toNat_lt.1 hlt, ?_⟩
  have hstep : c.transfer.step store.logged (c.outside, []) =
      some (c.transfer.gathered.bodyEnded, (c.outside, [])) := by
    simp [step, advance, hp, hc, hd, hn, takeItem, gathered]
  simp only [work, hstep, bodyEnded, gathered, hfinish, hlt, ↓reduceIte]
  rfl

/-- A download whose end is recorded reaches it. -/
theorem Course.Traced.reachesEnd {offset : Nat} {known : Option String} (h : c.Traced offset known)
    (hrecorded : c.Recorded) (hfinish : c.transfer.progress.finish = some finish)
    (store : Store σ) : c.ReachesEnd store offset finish.toNat where
  complete acts hmem := by
    have hlast : Terminated (handedSignals (c.run store acts).events) :=
      ⟨.complete, List.mem_filterMap.2 ⟨_, hmem, rfl⟩, rfl⟩
    have hend := hrecorded.run h store acts hlast
    rw [c.finish_run hfinish acts] at hend
    exact (h.run store acts).finish_le hmem hend.symm
  short acts := (c.run store acts).work_of_short store (c.finish_run hfinish acts)

/-! ### Downloads that break down -/

/-- A download of which nothing more is heard, whatever is done: its task is over, asks for nothing
and hands over nothing. -/
structure Course.BreaksDown (store : Store σ) (c : Course σ) : Prop where
  ended : ∀ acts, (c.run store acts).transfer.isEnded = true
  asked : ∀ acts, exchanges (c.run store acts).events = exchanges c.events
  handed : ∀ acts, handedSignals (c.run store acts).events = handedSignals c.events

/-- A task that has broken down does nothing any more. -/
theorem Course.act_of_lost (store : Store σ) (hp : c.transfer.phase = .lost) (a : Act) :
    (c.act store a).transfer.phase = .lost ∧
      exchanges (c.act store a).events = exchanges c.events ∧
      handedSignals (c.act store a).events = handedSignals c.events := by
  by_cases ha : a = .work
  · have hstay : c.act store a = c := by
      simp [ha, Course.act, work, step, advance, hp]
    rw [hstay]
    exact ⟨hp, rfl, rfl⟩
  · obtain ⟨-, hhanded, hexchanges, hphase | ⟨left, hl⟩⟩ := c.act_frame store ha
    · exact ⟨hphase.trans hp, hexchanges, hhanded⟩
    · cases hl.symm.trans hp

theorem Course.breaksDown (store : Store σ) (hp : c.transfer.phase = .lost) :
    c.BreaksDown store := by
  have hrun (acts : List Act) : (c.run store acts).transfer.phase = .lost ∧
      exchanges (c.run store acts).events = exchanges c.events ∧
      handedSignals (c.run store acts).events = handedSignals c.events := by
    induction acts generalizing c with
    | nil => exact ⟨hp, rfl, rfl⟩
    | cons a acts ih =>
      obtain ⟨hp', hasked, hhanded⟩ := c.act_of_lost store hp a
      obtain ⟨hlost, hasked', hhanded'⟩ := ih hp'
      exact ⟨hlost, hasked'.trans hasked, hhanded'.trans hhanded⟩
  exact
    { ended := fun acts => isEnded_iff.2 (.inr (hrun acts).1)
      asked := fun acts => (hrun acts).2.1
      handed := fun acts => (hrun acts).2.2 }

/-! ### Responses that declare a length -/

/-- A response with another tag than the one expected is rejected with a failure. -/
theorem Course.work_of_reject (store : Store σ) {r : Response} {e : Failure}
    (hp : c.transfer.phase = .awaiting (.response r)) (hc : c.transfer.cancelled = false)
    (ha : c.transfer.progress.accept r = .error e) :
    ∃ e', e'.kind = .preconditionFailed ∧
      (c.work store).transfer.phase = .closing (.failed e') := by
  obtain ⟨hkind, -⟩ := accept_eq_error ha
  have hstep : c.transfer.step store.logged (c.outside, []) =
      some (c.transfer.refused e, (c.outside, [])) := by
    simp [step, advance, hp, hc, ha]
  have hlocated : (c.transfer.located e).kind = .preconditionFailed := hkind
  simp only [work, hstep, refused, retry, hlocated, true_or, ↓reduceIte]
  split
  all_goals
    refine ⟨_, ?_, rfl⟩
    exact hkind

/-- The first length that an accepted response declares is added to the offset reached, if the sum
is a word. -/
theorem Course.work_of_accept (store : Store σ) {r : Response} {p : Progress} {length : UInt64}
    (hp : c.transfer.phase = .awaiting (.response r)) (hc : c.transfer.cancelled = false)
    (ha : c.transfer.progress.accept r = .ok p) (hf : c.transfer.progress.fits r = true)
    (hnone : c.transfer.progress.finish = none) (hlength : r.length = some length) :
    (c.work store).transfer.phase = .reading r.body ∧
      (c.work store).transfer.progress.finish =
        some (c.transfer.progress.delivered + length) := by
  have hstep : c.transfer.step store.logged (c.outside, []) =
      some ({ c.transfer with progress := p, phase := .reading r.body }, (c.outside, [])) := by
    simp [step, advance, hp, hc, ha, hf]
  obtain ⟨rfl, -⟩ := accept_eq_ok ha
  simp [work, hstep, hnone, hlength]

/-- Where the sum is no word, the task breaks down and keeps nothing of the response but its tag. -/
theorem Course.work_of_overflow (store : Store σ) {r : Response} {p : Progress}
    (hp : c.transfer.phase = .awaiting (.response r)) (hc : c.transfer.cancelled = false)
    (ha : c.transfer.progress.accept r = .ok p) (hf : c.transfer.progress.fits r = false) :
    (c.work store).transfer.phase = .lost ∧
      (c.work store).transfer.progress = { c.transfer.progress with etag := p.etag } ∧
      (c.work store).events = c.events := by
  have hstep : c.transfer.step store.logged (c.outside, []) =
      some ({ c.transfer with
        progress := { c.transfer.progress with etag := p.etag }, phase := .lost },
        (c.outside, [])) := by
    simp [step, advance, hp, hc, ha, hf]
  simp [work, hstep]

end Transfer

open Transfer

/-- A download completes only behind the end that the first accepted response to declare one has
declared, whatever later responses declare or leave out. -/
theorem Fetcher.course_end (f : Fetcher) (store : Store σ) (s : σ) (acts : List Act) :
    let c := (f.course s).run store acts
    .handed .complete ∈ c.events → ∀ finish, endAfter (Transfer.exchanges c.events) = some finish →
      finish ≤ f.offset.toNat + (handedBytes c.events).length := by
  intro c hcomplete finish hfinish
  have hstart : (f.course s).Traced f.offset.toNat f.etag := .ofStart f.plan f.offset f.etag s
  exact (hstart.run store acts).finish_le hcomplete hfinish

/-- The end of a download is recorded once and then stays. A response that declares a length while
none is recorded is rejected with a failure, where its tag is another one than expected; or the end
recorded is the exact sum of the offset reached and that length, the download completes only behind
it, and a body that ends before it is a failure; or the sum is no word. Then no end is recorded, the
response does not count as one, and nothing more is heard of the download, no failure either. -/
theorem Fetcher.records_end (f : Fetcher) (store : Store σ) (s : σ) (acts : List Act) :
    let c := (f.course s).run store acts
    (∀ finish, c.transfer.progress.finish = some finish →
      ∀ more, (c.run store more).transfer.progress.finish = some finish) ∧
    ∀ r length, c.transfer.phase = .awaiting (.response r) → c.transfer.cancelled = false →
      c.transfer.progress.finish = none → r.length = some length →
      let d := c.act store .work
      let sum := c.transfer.progress.delivered.toNat + length.toNat
      (∃ e, e.kind = .preconditionFailed ∧ d.transfer.phase = .closing (.failed e)) ∨
      (∃ finish, d.transfer.progress.finish = some finish ∧ finish.toNat = sum ∧
        d.ReachesEnd store f.offset.toNat sum) ∨
      UInt64.size ≤ sum ∧ d.transfer.progress.finish = none ∧
        d.transfer.progress.responded = c.transfer.progress.responded ∧ d.events = c.events ∧
        d.BreaksDown store := by
  intro c
  refine ⟨fun finish hfinish more => c.finish_run hfinish more, ?_⟩
  intro r length hp hc hnone hlength d sum
  have hstart : (f.course s).Traced f.offset.toNat f.etag := .ofStart f.plan f.offset f.etag s
  have htraced : d.Traced f.offset.toNat f.etag := (hstart.run store acts).work store
  cases ha : c.transfer.progress.accept r with
  | error e => exact .inl (c.work_of_reject store hp hc ha)
  | ok p =>
    refine .inr ?_
    cases hf : c.transfer.progress.fits r with
    | true =>
      obtain ⟨hreading, hfinish⟩ := c.work_of_accept store hp hc ha hf hnone hlength
      have hlt : sum < UInt64.size := by simpa [Progress.fits, hnone, hlength] using hf
      have hsum : (c.transfer.progress.delivered + length).toNat = sum :=
        (UInt64.toNat_add _ _).trans (Nat.mod_eq_of_lt hlt)
      have hopen : d.Recorded := fun hlast => by
        cases hreading.symm.trans (htraced.orderly.ended hlast)
      exact .inl ⟨_, hfinish, hsum, hsum ▸ htraced.reachesEnd hopen hfinish store⟩
    | false =>
      obtain ⟨hlost, hprogress, hevents⟩ := c.work_of_overflow store hp hc ha hf
      have hle : UInt64.size ≤ sum := by simpa [Progress.fits, hnone, hlength] using hf
      have hfinish := congrArg Progress.finish hprogress
      have hresponded := congrArg Progress.responded hprogress
      exact .inr ⟨hle, hfinish.trans hnone, hresponded, hevents, d.breaksDown store hlost⟩

/-- A response to a request from the fifth byte on, which holds five more bytes and declares as many
as a word can count. -/
def endless : Answer :=
  .response ⟨some "v1", some 18446744073709551615, [.chunk [5, 6, 7, 8, 9]]⟩

/-- A download of an object from its fifth byte on. -/
def fromFifth : Fetcher := (Fetcher.ofSettings ⟨"b", "k"⟩ {}).resumeFrom 5 none

/-- Behind the response that declares too much, nothing more is heard of the download. -/
theorem Fetcher.records_end_endless :
    let c := (fromFifth.course [endless]).run tape [.request 8, .work]
    c.transfer.phase = .awaiting endless ∧ (c.act tape .work).BreaksDown tape := by
  intro c
  have hp : c.transfer.phase = .awaiting endless := rfl
  refine ⟨hp, ?_⟩
  rcases (records_end fromFifth tape [endless] [.request 8, .work]).2 _ _ hp rfl rfl rfl with
    ⟨e, -, hclosing⟩ | ⟨finish, hfinish, -⟩ | ⟨-, -, -, -, hlost⟩
  · cases hclosing
  · cases hfinish
  · exact hlost

/-- The response carries no other tag than expected, and yet no end is recorded and nothing is
handed over: neither the five bytes of the body, nor the failure that they are too few, nor one by
which the response is rejected. The end is all that is received. -/
theorem Fetcher.declared_end_overflows :
    let c := (fromFifth.course [endless]).run tape [.request 8, .work, .work, .work, .next]
    (Transfer.exchanges c.events).map Exchange.accepted =
        [some ⟨some "v1", some 18446744073709551615, [.chunk [5, 6, 7, 8, 9]]⟩] ∧
      UInt64.size ≤ fromFifth.offset.toNat + (18446744073709551615 : UInt64).toNat ∧
      c.transfer.progress.finish = none ∧ c.transfer.isEnded = true ∧
      handedSignals c.events = [] ∧ c.events.getLast? = some (.received .over) :=
  ⟨rfl, by decide, rfl, rfl, rfl, rfl⟩

end QueryResults.Download
