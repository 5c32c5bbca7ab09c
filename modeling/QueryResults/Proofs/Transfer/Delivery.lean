import QueryResults.Proofs.Transfer.Course

/-!
# What a course delivers

In every course of a transfer whose store serves an object, whatever the acts and their order, the
bytes handed over are the first bytes of the object from the offset where the transfer starts, and
the bytes received are the first of those handed over. Each request asks for the object from the
first byte not yet handed over, under the object's tag once the store has responded, and completion
is handed over only behind the last byte.

## Main definitions

* `Course.Faithful`: the accounting between an object and a course.
* `Transfer.Fits`: what an event has to do with all that went before it.

## Main results

* `Course.Faithful.act`, `Course.Faithful.run`: every act keeps the accounting.
-/

namespace QueryResults.Download.Transfer

open Store

variable {σ : Type} {store : Store σ} {t t' : Transfer} {s s' : σ} {o : Object} {start : Nat}

/-- Asking for the next signal changes only the channel: what is received comes off its front. -/
theorem next_frame {x : Receipt} (hn : t.next = (x, t')) :
    t'.plan = t.plan ∧ t'.progress = t.progress ∧ t'.phase = t.phase ∧
      (Event.received x).receivedBytes ++ t'.channel.flatMap Signal.bytes =
        t.channel.flatMap Signal.bytes := by
  cases x with
  | signal x =>
    obtain ⟨rest, hc, rfl⟩ := next_eq_signal hn
    exact ⟨rfl, rfl, rfl, by simp [hc, Event.receivedBytes]⟩
  | _ =>
    obtain ⟨closed, rfl⟩ := next_eq_of_not_signal hn nofun
    exact ⟨rfl, rfl, rfl, rfl⟩

/-! ### Knowing the tag -/

/-- A transfer whose store has responded: it knows the tag, or it has the response still to look at,
or it will ask no more. -/
def HasResponse (t : Transfer) : Prop :=
  t.progress.responded = true ∨ (∃ r, t.phase = .awaiting (.response r)) ∨
    (∃ last, t.phase = .closing last) ∨ t.isEnded = true

theorem HasResponse.retry (h : t.progress.responded = true) (e : Failure) :
    HasResponse (t.retry e) := by
  unfold Transfer.retry
  split <;> exact .inl h

theorem hasResponse_refused (t : Transfer) (e : Failure) : HasResponse (t.refused e) := by
  unfold refused
  split
  · rename_i h
    exact .retry h _
  · exact .inr (.inr (.inl ⟨_, rfl⟩))

theorem hasResponse_bodyEnded (h : t.progress.responded = true) : HasResponse t.bodyEnded := by
  unfold bodyEnded
  split
  · split
    · exact .retry h _
    · exact .inl h
  · exact .inl h

/-- A transfer whose store has responded stays one. -/
theorem HasResponse.transition (h : HasResponse t)
    (ht : Transition store t s t' s') : HasResponse t' := by
  have responded {ph : Phase} (hp : t.phase = ph) (h₁ : ∀ r, ph ≠ .awaiting (.response r))
      (h₂ : ∀ last, ph ≠ .closing last) (h₃ : { t with phase := ph }.isEnded = false) :
      t.progress.responded = true := by
    rcases h with h | ⟨r, h⟩ | ⟨last, h⟩ | h
    · exact h
    · exact absurd (hp.symm.trans h) (h₁ r)
    · exact absurd (hp.symm.trans h) (h₂ last)
    · exact absurd h (Bool.eq_false_iff.1 (isEnded_of_phase hp h₃))
  cases ht with
  | stop hc hp => exact .inr (.inr (.inr rfl))
  | ask hc hp => exact .inl (responded hp nofun nofun rfl)
  | fail hc hp => exact hasResponse_refused t _
  | accept hc hp ha hf =>
    obtain ⟨rfl, -⟩ := accept_eq_ok ha
    exact .inl rfl
  | overflow hc hp ha hf => exact .inr (.inr (.inr rfl))
  | reject hc hp ha => exact hasResponse_refused t _
  | reach hc hp hd => exact .inr (.inr (.inl ⟨_, rfl⟩))
  | finish hc hp hd hn =>
    exact hasResponse_bodyEnded (t := t.gathered) (responded hp nofun nofun rfl)
  | breakOff hc hp hd hn => exact .retry (t := t.gathered) (responded hp nofun nofun rfl) _
  | skip hc hp hd hn => exact .inl (responded hp nofun nofun rfl)
  | take hc hp hd hn => exact .inl (responded hp nofun nofun rfl)
  | hand hc hp hr hf => exact .inl (responded hp nofun nofun rfl)
  | overrun hc hp hr hf => exact .inr (.inr (.inr rfl))
  | wake hc hp hl => exact .inl (responded hp nofun nofun rfl)
  | close hc hp hr => exact .inr (.inr (.inr rfl))

/-! ### The accounting of a course -/

/-- What an event has to do with an object and with all that went before it. -/
def Fits (o : Object) (start : Nat) (before : List Event) : Event → Prop
  | .asked x =>
    (x.request.start.map UInt64.toNat =
        if start + (handedBytes before).length = 0 then none
        else some (start + (handedBytes before).length)) ∧
      (Answered before → x.request.ifMatch = some o.etag)
  | .handed x => x = .complete → handedBytes before = o.bytes.drop start
  | .received x => x = .signal .complete → receivedBytes before = o.bytes.drop start
  | .granted _ | .cancelled => True

/-- The accounting between an object and the course of a transfer that starts at an offset. -/
structure Course.Faithful (o : Object) (start : Nat) (c : Course σ) : Prop where
  transfer : c.transfer.Sound o
  start_le : start ≤ o.bytes.length
  pending : receivedBytes c.events ++ c.transfer.pending o = o.bytes.drop start
  handed : handedBytes c.events =
    receivedBytes c.events ++ c.transfer.channel.flatMap Signal.bytes
  answered : Answered c.events → c.transfer.HasResponse
  events : Throughout (Fits o start) c.events

namespace Course.Faithful

variable {c : Course σ}

theorem ofStart {plan : Plan} {offset : UInt64} {etag : Option String} {outside : σ}
    (h : offset.toNat ≤ o.bytes.length) :
    Faithful o offset.toNat { transfer := .start plan offset etag, outside : Course σ } where
  transfer := .start h
  start_le := h
  pending := rfl
  handed := rfl
  answered := fun ⟨_, _, ha⟩ => nomatch ha
  events := throughout_nil _

/-- The bytes handed over and the rest of the object from the offset reached make up what was
wanted. -/
theorem handed_append (h : c.Faithful o start) :
    handedBytes c.events ++ o.bytes.drop c.transfer.progress.delivered.toNat =
      o.bytes.drop start := by
  rw [h.handed, List.append_assoc]
  exact h.pending

/-- The offset reached lies behind the bytes handed over. -/
theorem delivered_eq (h : c.Faithful o start) :
    c.transfer.progress.delivered.toNat = start + (handedBytes c.events).length := by
  have hlen := congrArg List.length h.handed_append
  have hle := h.transfer.delivered_le
  have hstart := h.start_le
  simp only [List.length_append, List.length_drop] at hlen
  omega

/-- The request of a transfer that is about to ask. -/
theorem fits_asked (h : c.Faithful o start) (hp : c.transfer.phase = .opening) (a : Answer) :
    Fits o start c.events (.asked ⟨c.transfer.nextRequest, a⟩) := by
  refine ⟨?_, fun ha => ?_⟩
  · rw [← h.delivered_eq]
    unfold nextRequest
    by_cases hd : c.transfer.progress.delivered = 0
    · simp [hd]
    · have : c.transfer.progress.delivered.toNat ≠ 0 :=
        fun h0 => hd (UInt64.toNat_inj.1 h0)
      simp [hd, this]
  · rcases h.answered ha with hr | ⟨r, hr⟩ | ⟨last, hr⟩ | hr
    · exact (h.transfer.responded hr).1
    · cases hp.symm.trans hr
    · cases hp.symm.trans hr
    · cases (isEnded_of_phase hp rfl).symm.trans hr

theorem work (hs : store.Serves c.transfer.plan.location o) (h : c.Faithful o start) :
    (c.work store).Faithful o start := by
  rcases Course.act_work store c with he | ⟨t', s', exchanges, ht, hcases⟩
  · rw [he]
    exact h
  have sound : t'.Sound o := h.transfer.transition hs.logged ht
  have pending : receivedBytes c.events ++ t'.pending o = o.bytes.drop start := by
    rw [h.transfer.pending_transition ht]
    exact h.pending
  have kept (ha : Answered c.events) : t'.HasResponse := (h.answered ha).transition ht
  rcases hcases with ⟨he, hch⟩ | ⟨answer, hp, hp', hch, he⟩ | ⟨x, hch, hx, he⟩
  · rw [he]
    exact ⟨sound, h.start_le, pending, hch ▸ h.handed, kept, h.events⟩
  · rw [he]
    refine ⟨sound, h.start_le, ?_, ?_, ?_, h.events.append (h.fits_asked hp answer)⟩
    · simpa [receivedBytes, Event.receivedBytes] using pending
    · simpa [handedBytes, receivedBytes, Event.handedBytes, Event.receivedBytes, hch] using h.handed
    · rintro ⟨q, r, hqr⟩
      rcases List.mem_append.1 hqr with hqr | hqr
      · exact kept ⟨q, r, hqr⟩
      · cases List.mem_singleton.1 hqr
        exact .inr (.inl ⟨r, hp'⟩)
  · rw [he]
    have fits : Fits o start c.events (.handed x) := by
      rintro rfl
      have hphase := h.transfer.phase
      rcases hx with ⟨b, body, -, hx⟩ | hx
      · cases hx
      · rw [hx] at hphase
        rw [← h.handed_append, hphase.2 rfl, List.drop_length, List.append_nil]
    refine ⟨sound, h.start_le, ?_, ?_, ?_, h.events.append fits⟩
    · simpa [receivedBytes, Event.receivedBytes] using pending
    · have := h.handed
      simp only [handedBytes, receivedBytes] at this
      simp [handedBytes, receivedBytes, Event.handedBytes, Event.receivedBytes, hch, this]
    · rintro ⟨q, r, hqr⟩
      refine kept ⟨q, r, ?_⟩
      simpa using hqr

/-- An event that delivers nothing and asks nothing changes the accounting only through the
transfer. -/
theorem append_event (h : c.Faithful o start) {u : Transfer} {x : Event} (hu : u.Sound o)
    (hx : x.handedBytes = []) (hno : ∀ e, x ≠ .asked e) (hf : Fits o start c.events x)
    (hp : x.receivedBytes ++ u.pending o = c.transfer.pending o)
    (hch : x.receivedBytes ++ u.channel.flatMap Signal.bytes =
      c.transfer.channel.flatMap Signal.bytes)
    (hr : c.transfer.HasResponse → u.HasResponse) :
    Faithful o start { c with transfer := u, events := c.events ++ [x] } where
  transfer := hu
  start_le := h.start_le
  pending := by
    rw [receivedBytes_append, List.append_assoc, ← h.pending, ← hp]
    simp [receivedBytes]
  handed := by
    rw [handedBytes_append, receivedBytes_append, List.append_assoc, h.handed, ← hch]
    simp [handedBytes, receivedBytes, hx]
  answered := by
    rintro ⟨q, r, hqr⟩
    rcases List.mem_append.1 hqr with hqr | hqr
    · exact hr (h.answered ⟨q, r, hqr⟩)
    · exact absurd (List.mem_singleton.1 hqr).symm (hno _)
  events := h.events.append hf

theorem lapse (h : c.Faithful o start) (span : Duration) :
    Faithful o start { c with transfer := c.transfer.lapse span } := by
  unfold Transfer.lapse
  split
  · rename_i left hp
    exact
      { h with
        transfer := h.transfer.withPhase (by rw [hp]; exact nofun) trivial
        answered := fun ha => by
          rcases h.answered ha with hr | ⟨r, hr⟩ | ⟨last, hr⟩ | hr
          · exact .inl hr
          · cases hp.symm.trans hr
          · cases hp.symm.trans hr
          · cases (isEnded_of_phase hp rfl).symm.trans hr }
  · exact h

/-- Every act keeps the accounting. -/
theorem act (hs : store.Serves c.transfer.plan.location o) (h : c.Faithful o start) (a : Act) :
    (c.act store a).Faithful o start := by
  cases a with
  | work => exact h.work hs
  | pass span => exact h.lapse span
  | request n =>
    simp only [Course.act]
    split
    · rename_i u hu
      unfold Transfer.request at hu
      split at hu
      · cases hu
      · cases hu
        exact h.append_event { h.transfer with } rfl (fun _ he => by cases he) trivial rfl rfl id
    · exact h
  | next =>
    have hn : c.transfer.next = (c.transfer.next.1, c.transfer.next.2) := rfl
    obtain ⟨-, hprogress, hphase, hch⟩ := next_frame hn
    refine h.append_event (h.transfer.next hn) rfl (fun _ he => by cases he) ?_ ?_ hch ?_
    · intro hx
      rw [← h.pending, h.transfer.pending_of_next_complete (hx ▸ hn), List.append_nil]
    · rw [Transfer.pending, Transfer.pending, ← List.append_assoc, hch, hprogress]
    · unfold HasResponse isEnded
      rw [hprogress, hphase]
      exact id
  | cancel =>
    exact h.append_event { h.transfer with } rfl (fun _ he => by cases he) trivial rfl rfl id

end Course.Faithful

/-- The plan of a transfer is the same throughout its course. -/
theorem Course.plan_act (store : Store σ) (c : Course σ) (a : Act) :
    (c.act store a).transfer.plan = c.transfer.plan := by
  cases a with
  | work =>
    rcases Course.act_work store c with he | ⟨t', s', exchanges, ht, hcases⟩
    · exact congrArg (·.transfer.plan) he
    · have hplan : t'.plan = c.transfer.plan := plan_transition ht
      rcases hcases with ⟨he, -⟩ | ⟨answer, -, -, -, he⟩ | ⟨x, -, -, he⟩
      · exact (congrArg (·.transfer.plan) he).trans hplan
      · exact (congrArg (·.transfer.plan) he).trans hplan
      · exact (congrArg (·.transfer.plan) he).trans hplan
  | pass span =>
    simp only [Course.act, lapse]
    split <;> rfl
  | request n =>
    simp only [Course.act, request]
    by_cases hn : n = 0 <;> simp [hn, grant]
  | next => exact (next_frame (x := c.transfer.next.1) rfl).1
  | cancel => rfl

/-- Whatever is done in the course of a transfer keeps the accounting. -/
theorem Course.Faithful.run {c : Course σ} (hs : store.Serves c.transfer.plan.location o)
    (h : c.Faithful o start) (acts : List Act) : (c.run store acts).Faithful o start := by
  induction acts generalizing c with
  | nil => exact h
  | cons a acts ih => exact ih (by rwa [Course.plan_act]) (h.act hs a)

end QueryResults.Download.Transfer
