import QueryResults.Proofs.Fetcher.Outlook
import QueryResults.Proofs.Transfer.Version

/-!
# Downloads of one version

However often a store replaces an object and whatever it makes of the conditions it is asked under,
a download in all its courses stays with the first version it has seen the tag of. Every signal that
is handed over rests on the exchanges made before it, and a request is made only behind exchanges
that fell short in another way than by a change of the object.

## Main definitions

* `Transfer.Sourced`: what an event has to do with the exchanges before it.
* `Course.Traced`: the exchanges of a course and its transfer.
* `Course.OneVersion`: what it is to stay with one version of an object.

## Main results

* `Course.Traced.run`: every course keeps to its exchanges.
* `Fetcher.course_oneVersion`: the courses of a download.
-/

namespace QueryResults.Download

open Store

variable {σ : Type} {store : Store σ}

namespace Transfer

variable {c : Course σ} {offset : Nat} {known : Option String} {x : Exchange}

/-- What an event has to do with the exchanges before it. Something is asked only if all of them
fell short in another way than by a change, and no last signal was handed over. A chunk is one of
the response to the last of them, which was accepted. A failure is what the last of them fell short
by, with what the others fell short by suppressed. -/
def Sourced (before : List Event) : Event → Prop
  | .asked _ =>
    ¬Terminated (handedSignals before) ∧ ∃ failures, Noted (exchanges before) failures
  | .handed (.chunk b) =>
    ∃ earlier x r, exchanges before = earlier ++ [x] ∧ x.accepted = some r ∧ .chunk b ∈ r.body
  | .handed .complete => ∃ earlier x r, exchanges before = earlier ++ [x] ∧ x.accepted = some r
  | .handed (.failed e) => GivesUp (exchanges before) e
  | .granted _ | .received _ | .cancelled => True

/-- The exchanges of the course of a transfer that starts at an offset, and where the transfer
stands with them. -/
structure Course.Traced (offset : Nat) (known : Option String) (c : Course σ) : Prop where
  orderly : c.Orderly offset
  coherent : c.transfer.Coherent
  recalls : c.transfer.Recalls known (exchanges c.events)
  signals : ∀ y ∈ handedSignals c.events, Grounded (exchanges c.events) c.transfer.progress y
  events : Throughout Sourced c.events

/-! ### Single steps of the task -/

theorem mem_of_handedSignals {events : List Event} {y : Signal} (hy : y ∈ handedSignals events) :
    .handed y ∈ events := by
  obtain ⟨event, hmem, hevent⟩ := List.mem_filterMap.1 hy
  cases event with
  | handed z =>
    cases hevent
    exact hmem
  | _ => cases hevent

namespace Course

theorem cancelled_work (c : Course σ) (store : Store σ) :
    (c.work store).transfer.cancelled = c.transfer.cancelled := by
  rcases Course.act_work store c with he | ⟨t', s', xs, ht, hcases⟩
  · rw [he]
  · have hc := cancelled_transition ht
    rcases hcases with ⟨he, -⟩ | ⟨answer, -, -, -, he⟩ | ⟨y, -, -, he⟩ <;> rw [he] <;> exact hc

/-- Only a task that is about to ask makes a request. -/
theorem exchanges_work (store : Store σ) (hp : c.transfer.phase ≠ .opening) :
    exchanges (c.work store).events = exchanges c.events := by
  rcases Course.act_work store c with
    he | ⟨t', s', xs, -, ⟨he, -⟩ | ⟨answer, hp', -⟩ | ⟨y, -, -, he⟩⟩
  · rw [he]
  · rw [he]
  · exact absurd hp' hp
  · rw [he]
    simp [Event.exchange]

/-- With an answer before it, a task goes on to something else. -/
theorem phase_ne_awaiting_work (c : Course σ) (store : Store σ) {a : Answer}
    (hc : c.transfer.cancelled = false) (hp : c.transfer.phase = .awaiting a) (ha : a ≠ .silence)
    (b : Answer) : (c.work store).transfer.phase ≠ .awaiting b := by
  unfold Course.work
  split
  · rename_i hs
    exact absurd hs (step_ne_none_of_awaiting hc hp ha)
  · rename_i t' outside xs hs
    have concluded {u : Transfer} (hu : u.Concluded t') : t'.phase ≠ .awaiting b := by
      rcases hu.phase_eq with ⟨last, hl, -⟩ | ⟨left, hl⟩ <;> rw [hl] <;> exact nofun
    cases transition_of_step hs with
    | ask _ hp' => cases hp.symm.trans hp'
    | fail => exact concluded (concluded_refused _ _)
    | reject => exact concluded (concluded_refused _ _)
    | finish => exact concluded (concluded_bodyEnded _)
    | breakOff => exact concluded (concluded_retry _ _)
    | _ => exact nofun

/-- The task is about to close with a signal, or has closed with it. -/
def ClosesWith (c : Course σ) (last : Signal) : Prop :=
  c.transfer.phase = .closing last ∨ c.transfer.phase = .ended ∧ .handed last ∈ c.events

/-- A step of a task that closes hands over its last signal as soon as there is room. -/
theorem ClosesWith.work {last : Signal} (h : c.ClosesWith last) (store : Store σ)
    (hc : c.transfer.cancelled = false) :
    (c.work store).ClosesWith last ∧
      ((c.work store).transfer.phase = .closing last →
        (c.work store).transfer.hasRoom = false) := by
  rcases h with hp | ⟨hp, hmem⟩
  · cases hroom : c.transfer.hasRoom with
    | true =>
      have hwork : c.work store =
          { c with
            transfer :=
              { c.transfer with channel := c.transfer.channel ++ [last], phase := .ended }
            events := c.events ++ [.handed last] } := by
        simp [Course.work, step, advance, hp, hc, hroom]
      rw [hwork]
      exact ⟨.inr ⟨rfl, by simp⟩, fun hp' => by cases hp'⟩
    | false =>
      have hwork : c.work store = c := by simp [Course.work, step, advance, hp, hc, hroom]
      rw [hwork]
      exact ⟨.inl hp, fun _ => hroom⟩
  · have hwork : c.work store = c := by simp [Course.work, step, advance, hp]
    rw [hwork]
    exact ⟨.inr ⟨hp, hmem⟩, fun hp' => by cases hp.symm.trans hp'⟩

end Course

namespace Course.Traced

theorem ofStart (plan : Plan) (offset : UInt64) (known : Option String) (outside : σ) :
    Traced offset.toNat known { transfer := .start plan offset known, outside : Course σ } where
  orderly := .ofStart plan offset known outside
  coherent := .start plan offset known
  recalls := .start plan offset known
  signals := nofun
  events := throughout_nil _

/-- What the task does to the exchanges, and what the transfer knows of them. -/
theorem recalls_work (h : c.Traced offset known) (store : Store σ) :
    (c.work store).transfer.Recalls known (exchanges (c.work store).events) := by
  unfold Course.work
  split
  · exact h.recalls
  · rename_i t' outside xs hs
    have ht := transition_log (transition_of_step hs) (exchanges c.events)
    rw [List.append_nil] at ht
    obtain ⟨own, hown, hrecalls⟩ := h.recalls.transition h.coherent (List.nil_append _).symm ht
    simp only [List.append_assoc, exchanges_append c.events, exchanges_shown]
    rwa [show exchanges c.events ++ xs = own from hown]

/-- What the task is about to hand over rests on the exchanges made. -/
theorem sourced (h : c.Traced offset known) {y : Signal}
    (hy : (∃ b body, c.transfer.phase = .offering b body ∧ y = .chunk b) ∨
      c.transfer.phase = .closing y) : Sourced c.events (.handed y) := by
  have hphase := h.recalls.phase
  rcases hy with ⟨b, body, hp, rfl⟩ | hp
  · rw [hp] at hphase
    obtain ⟨done, x, r, hown, hr, hbody⟩ := hphase.2.1.exists_accepted
    exact ⟨done, x, r, hown, hr, hbody _ List.mem_cons_self⟩
  · have hlast := h.coherent.closing y hp
    rw [hp] at hphase
    cases y with
    | chunk b => cases hlast
    | failed e => exact hphase.2.1
    | complete =>
      obtain ⟨done, x, r, hown, -, hr, -⟩ := hphase.2
      exact ⟨done, x, r, hown, hr⟩

/-- A step of the task. -/
theorem work (h : c.Traced offset known) (store : Store σ) :
    (c.work store).Traced offset known := by
  have horderly := h.orderly.work store
  have hrecalls := h.recalls_work store
  rcases Course.act_work store c with he | ⟨t', s', xs, ht, hcases⟩
  · rw [he]
    exact h
  have hne := phase_ne_ended_of_transition ht
  have hno : ¬Terminated (handedSignals c.events) := fun hx => hne (h.orderly.ended hx)
  have hcoherent := h.coherent.transition ht
  have signals {own : List Exchange} (hsub : exchanges c.events ⊆ own) :=
    grounded_mono h.signals hno hsub t'.progress
  rcases hcases with ⟨he, -⟩ | ⟨answer, hp, -, -, he⟩ | ⟨y, hch, hy, he⟩
  · rw [he] at horderly hrecalls ⊢
    exact ⟨horderly, hcoherent, hrecalls, signals (List.Subset.refl _), h.events⟩
  · have hphase := h.recalls.phase
    rw [hp] at hphase
    rw [he] at horderly hrecalls ⊢
    refine ⟨horderly, hcoherent, hrecalls, ?_, h.events.append ⟨hno, _, hphase.2⟩⟩
    simp only [handedSignals_append, handedSignals_singleton, Event.handedSignal,
      Option.toList_none, List.append_nil]
    exact signals (by simp)
  · have hsourced := h.sourced hy
    rw [he] at horderly hrecalls ⊢
    have hown : exchanges (c.events ++ [.handed y]) = exchanges c.events := by
      simp [Event.exchange]
    refine ⟨horderly, hcoherent, hrecalls, ?_, h.events.append hsourced⟩
    simp only [handedSignals_append, handedSignals_singleton, Event.handedSignal,
      Option.toList_some, hown] at hrecalls ⊢
    intro z hz
    rcases List.mem_append.1 hz with hz | hz
    · exact signals (List.Subset.refl _) z hz
    · obtain rfl := List.mem_singleton.1 hz
      exact hrecalls.channel z (by simp [hch])

/-- Every act keeps a course to its exchanges. -/
theorem act (h : c.Traced offset known) (store : Store σ) (a : Act) :
    (c.act store a).Traced offset known := by
  have horderly := h.orderly.act store a
  cases a with
  | work => exact h.work store
  | pass span =>
    exact ⟨horderly, h.coherent.lapse span, h.recalls.lapse span,
      (progress_lapse c.transfer span).symm ▸ h.signals, h.events⟩
  | request n =>
    simp only [Course.act] at horderly ⊢
    split
    · rename_i u hu
      rw [hu] at horderly
      unfold Transfer.request at hu
      split at hu
      · cases hu
      · cases hu
        exact ⟨horderly, h.coherent.grant n, by simpa [Event.exchange] using h.recalls.grant n,
          by simpa [Event.exchange, grant] using h.signals, h.events.append trivial⟩
    · exact h
  | next =>
    obtain ⟨y, u, hn⟩ : ∃ y u, c.transfer.next = (y, u) := ⟨_, _, rfl⟩
    obtain ⟨-, hprogress, -⟩ := next_frame hn
    simp only [Course.act, hn] at horderly ⊢
    exact ⟨horderly, h.coherent.next hn, by simpa [Event.exchange] using h.recalls.next hn,
      by simpa [Event.exchange, hprogress] using h.signals, h.events.append trivial⟩
  | cancel =>
    exact ⟨horderly, { h.coherent with },
      by simpa [Course.act, Event.exchange] using h.recalls.cancel,
      by simpa [Course.act, Event.exchange, cancel] using h.signals, h.events.append trivial⟩

/-- Every course keeps to its exchanges. -/
theorem run (h : c.Traced offset known) (store : Store σ) (acts : List Act) :
    (c.run store acts).Traced offset known := by
  induction acts generalizing c with
  | nil => exact h
  | cons a acts ih => exact ih (h.act store a)

/-! ### What follows a change -/

/-- Nothing is asked behind an exchange that reports a change. -/
theorem exchanges_after (h : c.Traced offset known) {before after : List Event}
    (he : c.events = before ++ .asked x :: after) (hx : x.ReportsChange) :
    exchanges after = [] := by
  refine List.eq_nil_iff_forall_not_mem.2 fun y hy => ?_
  obtain ⟨event, hmem, hevent⟩ := List.mem_filterMap.1 hy
  obtain ⟨l, l', rfl⟩ := List.append_of_mem hmem
  have hsourced := h.events (before ++ .asked x :: l) event l' (by simp [he])
  cases event with
  | asked z =>
    obtain ⟨-, failures, hnoted⟩ := hsourced
    exact hnoted.not_reportsChange (by simp [exchanges, Event.exchange]) hx
  | _ => cases hevent

/-- What is handed over behind an exchange that reports a change rests on it. -/
theorem sourced_after (h : c.Traced offset known) {before after : List Event}
    (he : c.events = before ++ .asked x :: after) (hx : x.ReportsChange) {y : Signal}
    (hy : .handed y ∈ after) :
    ∃ l, exchanges l = exchanges before ++ [x] ∧ Sourced l (.handed y) := by
  have hnone := h.exchanges_after he hx
  obtain ⟨l, l', rfl⟩ := List.append_of_mem hy
  rw [exchanges_append, List.append_eq_nil_iff] at hnone
  refine ⟨before ++ .asked x :: l, ?_, h.events _ _ l' (by simp [he])⟩
  have hsplit : before ++ .asked x :: l = before ++ [.asked x] ++ l := by simp
  rw [hsplit, exchanges_append, exchanges_append, hnone.1, List.append_nil]
  rfl

/-- Behind an exchange whose answer shows a change nothing is handed over but a failure by that
change. -/
theorem eq_failed_of_handed (h : c.Traced offset known) {before after : List Event}
    (he : c.events = before ++ .asked x :: after) (hx : x.FindsChange) {y : Signal}
    (hy : .handed y ∈ after) : ∃ e, y = .failed e := by
  obtain ⟨l, hl, hsourced⟩ := h.sourced_after he (.atOnce hx) hy
  have accepted {earlier : List Exchange} {z : Exchange} {r : Response}
      (hz : exchanges l = earlier ++ [z]) (hr : z.accepted = some r) : False := by
    obtain ⟨-, heq⟩ := List.append_inj' (hl.symm.trans hz) rfl
    cases (List.cons.inj heq).1
    cases hx.accepted.symm.trans hr
  cases y with
  | failed e => exact ⟨e, rfl⟩
  | chunk b =>
    obtain ⟨earlier, z, r, hz, hr, -⟩ := hsourced
    exact (accepted hz hr).elim
  | complete =>
    obtain ⟨earlier, z, r, hz, hr⟩ := hsourced
    exact (accepted hz hr).elim

/-- Once a change has been found, the answer is still before the task, or the failure by that change
is what the task closes with. -/
theorem stands (h : c.Traced offset known) (hc : c.transfer.cancelled = false)
    (hx : x ∈ exchanges c.events) (hchange : x.FindsChange) :
    c.transfer.phase = .awaiting x.answer ∨
      ∃ e, e.kind = .preconditionFailed ∧ GivesUp (exchanges c.events) e ∧
        c.ClosesWith (.failed e) := by
  rcases h.recalls.of_findsChange h.coherent hx hchange with hp | ⟨e, hp, hgives, hkind⟩ | hp
  · exact .inl hp
  · exact .inr ⟨e, hkind, hgives, .inl hp⟩
  · obtain ⟨y, hy, hlast⟩ := h.orderly.terminated hp hc
    obtain ⟨e, rfl, hgives, hkind⟩ :=
      Recalls.failed_of_findsChange (h.signals y hy) hlast hx hchange
    exact .inr ⟨e, hkind, hgives, .inr ⟨hp, mem_of_handedSignals hy⟩⟩

/-- Two steps of the task behind an answer that shows a change, the failure by that change is handed
over, or it waits for nothing but room. -/
theorem fails (h : c.Traced offset known) (store : Store σ) (hc : c.transfer.cancelled = false)
    (hx : x ∈ exchanges c.events) (hchange : x.FindsChange) :
    ∃ e, e.kind = .preconditionFailed ∧ GivesUp (exchanges c.events) e ∧
      ((c.work store).work store).ClosesWith (.failed e) ∧
      (((c.work store).work store).transfer.phase = .closing (.failed e) →
        ((c.work store).work store).transfer.hasRoom = false) := by
  rcases h.stands hc hx hchange with hp | ⟨e, hkind, hgives, hclose⟩
  · -- The first step takes the answer into account, the second one closes.
    have hown : exchanges (c.work store).events = exchanges c.events :=
      Course.exchanges_work store (by simp [hp])
    have hc' : (c.work store).transfer.cancelled = false := (c.cancelled_work store).trans hc
    have hne := c.phase_ne_awaiting_work store hc hp hchange.answer_ne_silence
    rcases (h.work store).stands hc' (hown ▸ hx) hchange with hp' | ⟨e, hkind, hgives, hclose⟩
    · exact absurd hp' (hne _)
    · obtain ⟨hclose', hroom⟩ := hclose.work store hc'
      exact ⟨e, hkind, hown ▸ hgives, hclose', hroom⟩
  · obtain ⟨hclose', -⟩ := hclose.work store hc
    obtain ⟨hclose'', hroom⟩ := hclose'.work store ((c.cancelled_work store).trans hc)
    exact ⟨e, hkind, hgives, hclose'', hroom⟩

/-- A change that is polled in the middle of a body is what the task closes with. -/
theorem polled (h : c.Traced offset known) (store : Store σ) {e : Failure} {body : List Item}
    (hp : c.transfer.phase = .reading (.failure e :: body)) (hk : e.kind = .preconditionFailed)
    (hpolls : c.transfer.Polls) :
    ∃ e', e'.kind = .preconditionFailed ∧ GivesUp (exchanges c.events) e' ∧
      (c.work store).transfer.phase = .closing (.failed e') := by
  obtain ⟨hc, -, hd, hn⟩ := polls_iff.1 hpolls
  let e' := (c.transfer.located e).withSuppressed c.transfer.progress.failures
  have hphase : (c.work store).transfer.phase = .closing (.failed e') := by
    simp [Course.work, step, advance, hp, hc, hd, hn, takeItem, retry, located, hk, e']
  have hrecalls := (h.work store).recalls.phase
  rw [hphase] at hrecalls
  refine ⟨e', hk, ?_, hphase⟩
  rw [← Course.exchanges_work store (by simp [hp])]
  exact hrecalls.2.1

end Course.Traced

/-- To stay with one version of an object, whatever the store makes of it. -/
structure Course.OneVersion (store : Store σ) (c : Course σ) : Prop where
  /-- Once an accepted response has carried a tag, every later request asks for it. -/
  tag : KeepsTag (exchanges c.events)
  /-- Every later response with another tag shows a change. -/
  apart : TellsApart (exchanges c.events)
  /-- Requests, chunks and last signals rest on the exchanges before them. -/
  events : Throughout Sourced c.events
  /-- Nothing is asked behind an exchange that reports a change, and no failure is handed over but
  that change. -/
  reported : ∀ before x after, c.events = before ++ .asked x :: after → x.ReportsChange →
    exchanges after = [] ∧ ∀ e, .handed (.failed e) ∈ after → e.kind = .preconditionFailed
  /-- Behind an answer that shows a change, no byte is handed over and no completion. -/
  found : ∀ before x after, c.events = before ++ .asked x :: after → x.FindsChange →
    handedBytes after = [] ∧ .handed .complete ∉ after
  /-- Two steps of the task behind it, the failure by that change is handed over, with all earlier
  failures suppressed in order, or it waits for nothing but room. -/
  fails : ∀ x ∈ exchanges c.events, x.FindsChange → .cancelled ∉ c.events →
    let d := (c.act store .work).act store .work
    ∃ e, e.kind = .preconditionFailed ∧ GivesUp (exchanges c.events) e ∧
      d.ClosesWith (.failed e) ∧
      (d.transfer.phase = .closing (.failed e) → d.transfer.hasRoom = false)
  /-- So does a change that is polled in the middle of a body. -/
  polled : ∀ e body, c.transfer.phase = .reading (.failure e :: body) →
    e.kind = .preconditionFailed → c.transfer.Polls →
    ∃ e', e'.kind = .preconditionFailed ∧ GivesUp (exchanges c.events) e' ∧
      (c.act store .work).transfer.phase = .closing (.failed e')

theorem Course.Traced.oneVersion (h : c.Traced offset known) (store : Store σ) :
    c.OneVersion store where
  tag := h.recalls.versioned.keepsTag
  apart := h.recalls.versioned.keepsTag.tellsApart
  events := h.events
  reported before x after he hx := by
    refine ⟨h.exchanges_after he hx, fun e hy => ?_⟩
    obtain ⟨l, hl, hgives⟩ := h.sourced_after he hx hy
    exact (GivesUp.of_reportsChange hgives (by simp [hl]) hx).2
  found before x after he hx := by
    constructor
    · refine List.flatMap_eq_nil_iff.2 fun event hevent => ?_
      cases event with
      | handed y =>
        obtain ⟨e, rfl⟩ := h.eq_failed_of_handed he hx hevent
        rfl
      | _ => rfl
    · intro hy
      obtain ⟨e, he⟩ := h.eq_failed_of_handed he hx hy
      cases he
  fails x hx hchange hno := by
    refine h.fails store ?_ hx hchange
    rw [← Bool.not_eq_true]
    exact fun hc => hno (h.orderly.cancelled.1 hc)
  polled e body hp hk hpolls := h.polled store hp hk hpolls

end Transfer

/-- Every course of a download stays with one version of the object. -/
theorem Fetcher.course_oneVersion (f : Fetcher) (store : Store σ) (s : σ)
    (acts : List Transfer.Act) : ((f.course s).run store acts).OneVersion store :=
  ((Transfer.Course.Traced.ofStart f.plan f.offset f.etag s).run store acts).oneVersion store

end QueryResults.Download
