import QueryResults.Proofs.Transfer.Overrun

/-!
# The protocol between a task and its consumer

Whatever the store answers and in whatever order the task and its consumer act, the signals of a
transfer keep a protocol. Chunks are handed over first and at most one last signal behind them, and
nothing but the end is received after the last signal or after the cancellation. A task that was not
cancelled ends by handing over its last signal, unless it breaks down: then the end is received
without one. A cancelled task asks for nothing, looks at no body and begins no further attempt. Each
attempt that falls short costs a retry, so no more requests are made than there are retries and one.

The task *polls* its body where its next step would be another one if the body were another one.

## Main definitions

* `Transfer.handedSignals`, `Transfer.receivedSignals`, `Transfer.requests`: what is in a list of
  events.
* `Transfer.Regular`: what an event has to do with the protocol and all that went before it.
* `Course.Orderly`: the protocol between the events of a course and its transfer.
* `Transfer.Polls`, `Transfer.attemptsLeft`.

## Main results

* `Course.Orderly.run`: every course keeps the protocol.
* `Course.run_of_cancelled`: what becomes of a cancelled transfer.
* `Course.requests_run`: the number of requests of a course.
-/

namespace QueryResults.Download.Transfer

open Store

variable {σ : Type} {store : Store σ} {t t' : Transfer} {s s' : σ} {c : Course σ} {offset : Nat}

/-! ### Signals and requests in a list of events -/

/-- The signal of an event in which one is handed over. -/
@[simp] def Event.handedSignal : Event → Option Signal
  | handed x => some x
  | _ => none

/-- The signal of an event in which one is received. -/
@[simp] def Event.receivedSignal : Event → Option Signal
  | received (.signal x) => some x
  | _ => none

/-- The request of an event in which one is made. -/
@[simp] def Event.request : Event → Option Request
  | asked x => some x.request
  | _ => none

/-- The signals handed over in the order in which they were. -/
def handedSignals (events : List Event) : List Signal := events.filterMap Event.handedSignal

/-- The signals received in the order in which they were. -/
def receivedSignals (events : List Event) : List Signal := events.filterMap Event.receivedSignal

/-- The requests in the order in which they were made. -/
def requests (events : List Event) : List Request := events.filterMap Event.request

@[simp] theorem handedSignals_singleton (x : Event) :
    handedSignals [x] = x.handedSignal.toList := by
  cases h : x.handedSignal <;> simp only [handedSignals, List.filterMap_cons, h] <;> rfl

@[simp] theorem receivedSignals_singleton (x : Event) :
    receivedSignals [x] = x.receivedSignal.toList := by
  cases h : x.receivedSignal <;> simp only [receivedSignals, List.filterMap_cons, h] <;> rfl

@[simp] theorem requests_singleton (x : Event) : requests [x] = x.request.toList := by
  cases h : x.request <;> simp only [requests, List.filterMap_cons, h] <;> rfl

@[simp] theorem handedSignals_append (l l' : List Event) :
    handedSignals (l ++ l') = handedSignals l ++ handedSignals l' := List.filterMap_append

@[simp] theorem receivedSignals_append (l l' : List Event) :
    receivedSignals (l ++ l') = receivedSignals l ++ receivedSignals l' := List.filterMap_append

@[simp] theorem requests_append (l l' : List Event) :
    requests (l ++ l') = requests l ++ requests l' := List.filterMap_append

/-- Whether a last signal is among some signals. -/
def Terminated (l : List Signal) : Prop := ∃ x ∈ l, x.isTerminal = true

theorem not_terminated_nil : ¬Terminated [] := fun ⟨_, hx, _⟩ => nomatch hx

theorem terminated_append {l l' : List Signal} :
    Terminated (l ++ l') ↔ Terminated l ∨ Terminated l' := by
  simp only [Terminated, List.mem_append, or_and_right, exists_or]

theorem terminated_singleton {x : Signal} : Terminated [x] ↔ x.isTerminal = true := by
  simp [Terminated]

/-- Signals of which none but the last is terminal are chunks with at most one last signal behind
them. -/
theorem exists_chunks_append {l : List Signal} (h : l.Pairwise fun x _ => x.isTerminal = false) :
    ∃ (chunks : List (List UInt8)) (ending : Option Signal),
      l = chunks.map .chunk ++ ending.toList ∧ ∀ x ∈ ending, x.isTerminal = true := by
  induction h with
  | nil => exact ⟨[], none, rfl, nofun⟩
  | @cons x l hx _ ih =>
    obtain ⟨chunks, ending, rfl, hend⟩ := ih
    cases x with
    | chunk b => exact ⟨b :: chunks, ending, rfl, hend⟩
    | complete | failed =>
      -- A last signal is followed by no other, so there is nothing behind it.
      cases hl : chunks.map Signal.chunk ++ ending.toList with
      | nil =>
        refine ⟨[], some _, rfl, ?_⟩
        rintro _ ⟨⟩
        rfl
      | cons y l => cases hx y (hl ▸ List.mem_cons_self)

/-! ### Steps of the task -/

/-- A cancelled task only ends. -/
theorem eq_of_transition_of_cancelled (hc : t.cancelled = true)
    (ht : Transition store t s t' s') : t' = { t with phase := .ended } ∧ s' = s := by
  cases ht with
  | stop => exact ⟨rfl, rfl⟩
  | ask hc' | fail hc' | accept hc' | overflow hc' | reject hc' | reach hc' | finish hc'
  | breakOff hc' | skip hc' | take hc' | hand hc' | overrun hc' | wake hc' | close hc' =>
    cases hc.symm.trans hc'

theorem cancelled_transition (ht : Transition store t s t' s') : t'.cancelled = t.cancelled := by
  cases ht with
  | fail hc hp => exact (concluded_refused t _).cancelled_eq
  | reject hc hp ha => exact (concluded_refused t _).cancelled_eq
  | finish hc hp hd hn => exact (concluded_bodyEnded t.gathered).cancelled_eq
  | breakOff hc hp hd hn => exact (concluded_retry t.gathered _).cancelled_eq
  | _ => rfl

theorem cancelled_next {x : Receipt} (hn : t.next = (x, t')) : t'.cancelled = t.cancelled := by
  cases x with
  | signal x =>
    obtain ⟨rest, -, rfl⟩ := next_eq_signal hn
    rfl
  | _ =>
    obtain ⟨closed, rfl⟩ := next_eq_of_not_signal hn nofun
    rfl

theorem closed_transition (ht : Transition store t s t' s') : t'.closed = t.closed := by
  cases ht with
  | fail hc hp => exact (concluded_refused t _).closed_eq
  | reject hc hp ha => exact (concluded_refused t _).closed_eq
  | finish hc hp hd hn => exact (concluded_bodyEnded t.gathered).closed_eq
  | breakOff hc hp hd hn => exact (concluded_retry t.gathered _).closed_eq
  | _ => rfl

/-- A task that has ended makes no step. -/
theorem phase_ne_ended_of_transition (ht : Transition store t s t' s') : t.phase ≠ .ended :=
  phase_ne_ended rfl (isEnded_eq_false_of_transition ht)

/-- What is waited for at the end of a task is room for a last signal. -/
theorem isTerminal_of_transition (ht : Transition store t s t' s') {last : Signal}
    (hl : t'.phase = .closing last) : last.isTerminal = true := by
  have concluded {u : Transfer} (h : u.Concluded t') : last.isTerminal = true := by
    rcases h.phase_eq with ⟨last', hl', hx⟩ | ⟨left, hl'⟩
    · cases hl.symm.trans hl'
      exact hx
    · cases hl.symm.trans hl'
  cases ht with
  | fail hc hp => exact concluded (concluded_refused t _)
  | reject hc hp ha => exact concluded (concluded_refused t _)
  | finish hc hp hd hn => exact concluded (concluded_bodyEnded t.gathered)
  | breakOff hc hp hd hn => exact concluded (concluded_retry t.gathered _)
  | reach hc hp hd =>
    cases hl
    rfl
  | stop | ask | accept | overflow | skip | take | hand | overrun | wake | close => cases hl

/-- A task ends because it is cancelled or with its last signal. -/
theorem closing_of_transition (ht : Transition store t s t' s') (hp' : t'.phase = .ended)
    (hc : t.cancelled = false) :
    ∃ last, t.phase = .closing last ∧ t'.channel = t.channel ++ [last] := by
  have concluded {u : Transfer} (h : u.Concluded t') : False := by
    rcases h.phase_eq with ⟨last, hl, -⟩ | ⟨left, hl⟩ <;> cases hl.symm.trans hp'
  cases ht with
  | stop hc' => cases hc.symm.trans hc'
  | close hc' hp hr => exact ⟨_, hp, rfl⟩
  | fail hc hp => exact (concluded (concluded_refused t _)).elim
  | reject hc hp ha => exact (concluded (concluded_refused t _)).elim
  | finish hc hp hd hn => exact (concluded (concluded_bodyEnded t.gathered)).elim
  | breakOff hc hp hd hn => exact (concluded (concluded_retry t.gathered _)).elim
  | ask | accept | overflow | reach | skip | take | hand | overrun | wake => cases hp'

/-- With its last signal a task ends. -/
theorem ended_of_closing {last : Signal} (ht : Transition store t s t' s')
    (hp : t.phase = .closing last) : t'.phase = .ended := by
  cases ht with
  | stop hc hp' => rfl
  | close hc hp' hr => rfl
  | ask hc hp' | fail hc hp' | accept hc hp' | overflow hc hp' | reject hc hp' | reach hc hp'
  | finish hc hp' | breakOff hc hp' | skip hc hp' | take hc hp' | hand hc hp' | overrun hc hp'
  | wake hc hp' => cases hp.symm.trans hp'

/-! ### The protocol -/

/-- What an event has to do with the protocol and with all that went before it: nothing is asked or
handed over after the cancellation, and what is received is the end after the cancellation, after
the last signal, and otherwise only where an offset was too large for a word. -/
def Regular (offset : Nat) (before : List Event) : Event → Prop
  | .asked _ | .handed _ => .cancelled ∉ before
  | .received x =>
    (.cancelled ∈ before ∨ Terminated (receivedSignals before) → x = .over) ∧
      (x = .over →
        .cancelled ∈ before ∨ Terminated (receivedSignals before) ∨ Overruns offset before)
  | .granted _ | .cancelled => True

/-- The protocol between what has happened and where the transfer, which started at an offset,
stands. -/
structure Course.Orderly (offset : Nat) (c : Course σ) : Prop where
  counted : c.Counted offset
  handed : handedSignals c.events = receivedSignals c.events ++ c.transfer.channel
  last : (handedSignals c.events).Pairwise fun x _ => x.isTerminal = false
  closing : ∀ last, c.transfer.phase = .closing last → last.isTerminal = true
  ended : Terminated (handedSignals c.events) → c.transfer.phase = .ended
  terminated : c.transfer.phase = .ended → c.transfer.cancelled = false →
    Terminated (handedSignals c.events)
  closed : Terminated (receivedSignals c.events) → c.transfer.closed = true
  finished : c.transfer.closed = true →
    Terminated (receivedSignals c.events) ∨ c.transfer.phase = .lost
  cancelled : c.transfer.cancelled = true ↔ .cancelled ∈ c.events
  events : Throughout (Regular offset) c.events

namespace Course.Orderly

theorem ofStart (plan : Plan) (offset : UInt64) (etag : Option String) (outside : σ) :
    Orderly offset.toNat { transfer := .start plan offset etag, outside : Course σ } where
  counted := .ofStart plan offset etag outside
  handed := rfl
  last := .nil
  closing := nofun
  ended h := (not_terminated_nil h).elim
  terminated := nofun
  closed h := (not_terminated_nil h).elim
  finished := nofun
  cancelled := ⟨nofun, nofun⟩
  events := throughout_nil _

/-- What shows nothing to the consumer keeps the protocol. -/
theorem quiet (h : c.Orderly offset) {events : List Event}
    (hcounted : Counted offset { transfer := t, outside := s, events })
    (hhanded : handedSignals events = handedSignals c.events)
    (hreceived : receivedSignals events = receivedSignals c.events)
    (hmem : .cancelled ∈ events ↔ .cancelled ∈ c.events) (hch : t.channel = c.transfer.channel)
    (hcl : t.closed = c.transfer.closed) (hca : t.cancelled = c.transfer.cancelled)
    (closing : ∀ last, t.phase = .closing last → last.isTerminal = true)
    (ended : Terminated (handedSignals c.events) → t.phase = .ended)
    (terminated : t.phase = .ended → t.cancelled = false → Terminated (handedSignals c.events))
    (hlost : c.transfer.phase = .lost → t.phase = .lost)
    (hev : Throughout (Regular offset) events) :
    Orderly offset { transfer := t, outside := s, events } where
  counted := hcounted
  handed := by
    rw [hhanded, hreceived, hch]
    exact h.handed
  last := hhanded ▸ h.last
  closing
  ended := hhanded ▸ ended
  terminated := hhanded ▸ terminated
  closed := by
    rw [hcl, hreceived]
    exact h.closed
  finished := by
    rw [hcl, hreceived]
    exact fun hx => (h.finished hx).imp_right hlost
  cancelled := by
    rw [hca, hmem]
    exact h.cancelled
  events := hev

/-- Handing over a signal of a task that has handed over no last one. -/
theorem hand (h : c.Orderly offset) {x : Signal}
    (hcounted : Counted offset { transfer := t, outside := s, events := c.events ++ [.handed x] })
    (hno : ¬Terminated (handedSignals c.events)) (hgo : c.transfer.phase ≠ .lost)
    (hc : c.transfer.cancelled = false) (hch : t.channel = c.transfer.channel ++ [x])
    (hcl : t.closed = c.transfer.closed) (hca : t.cancelled = c.transfer.cancelled)
    (closing : ∀ last, t.phase = .closing last → last.isTerminal = true)
    (ended : t.phase = .ended ↔ x.isTerminal = true) :
    Orderly offset { transfer := t, outside := s, events := c.events ++ [.handed x] } where
  counted := hcounted
  handed := by simp [h.handed, hch]
  last := by
    simp only [handedSignals_append, handedSignals_singleton, Event.handedSignal,
      Option.toList_some, List.pairwise_append, List.pairwise_singleton, List.mem_singleton]
    refine ⟨h.last, trivial, fun y hy _ _ => ?_⟩
    exact Bool.eq_false_iff.2 fun hy' => hno ⟨y, hy, hy'⟩
  closing
  ended := by
    simp only [handedSignals_append, handedSignals_singleton, Event.handedSignal,
      Option.toList_some, terminated_append, terminated_singleton]
    rintro (hx | hx)
    · exact absurd hx hno
    · exact ended.2 hx
  terminated hp _ := by
    rw [handedSignals_append, terminated_append]
    exact .inr (terminated_singleton.2 (ended.1 hp))
  closed := by simpa [hcl] using h.closed
  finished := by
    rw [hcl]
    exact fun hx => .inl (by simpa using (h.finished hx).resolve_right hgo)
  cancelled := by simpa [hca] using h.cancelled
  events := h.events.append fun hx => Bool.false_ne_true (hc.symm.trans (h.cancelled.2 hx))

theorem work (store : Store σ) (h : c.Orderly offset) : (c.work store).Orderly offset := by
  have hcounted := h.counted.work store h.closing
  rcases Course.act_work store c with he | ⟨t', s', exchanges, ht, hcases⟩
  · rw [he]
    exact h
  have hcancelled := cancelled_transition ht
  have hclosed := closed_transition ht
  have hgo : c.transfer.phase ≠ .lost := fun hp =>
    Bool.false_ne_true ((isEnded_eq_false_of_transition ht).symm.trans (isEnded_iff.2 (.inr hp)))
  have hno : ¬Terminated (handedSignals c.events) :=
    fun hx => phase_ne_ended_of_transition ht (h.ended hx)
  have closing (last : Signal) (hl : t'.phase = .closing last) := isTerminal_of_transition ht hl
  rcases hcases with ⟨he, hch⟩ | ⟨answer, hp, hp', hch, he⟩ | ⟨x, hch, hx, he⟩
  · rw [he] at hcounted ⊢
    refine h.quiet hcounted rfl rfl .rfl hch hclosed hcancelled closing (fun hx => absurd hx hno)
      ?_ (fun hp => absurd hp hgo) h.events
    intro hp hc
    obtain ⟨last, -, hch'⟩ := closing_of_transition ht hp (hcancelled ▸ hc)
    simp [hch] at hch'
  · rw [he] at hcounted ⊢
    refine h.quiet hcounted (by simp) (by simp) (by simp) hch hclosed hcancelled closing
      (fun hx => absurd hx hno) (fun hp => by cases hp'.symm.trans hp) (fun hp => absurd hp hgo)
      (h.events.append ?_)
    intro hx
    rw [(eq_of_transition_of_cancelled (h.cancelled.2 hx) ht).1] at hp'
    cases hp'
  · have hc : c.transfer.cancelled = false := by
      rw [← Bool.not_eq_true]
      intro hc
      rw [(eq_of_transition_of_cancelled hc ht).1] at hch
      simp at hch
    rw [he] at hcounted ⊢
    refine h.hand hcounted hno hgo hc hch hclosed hcancelled closing
      ⟨fun hp => ?_, fun hx' => ?_⟩
    · obtain ⟨last, hl, hch'⟩ := closing_of_transition ht hp hc
      obtain rfl : x = last := by simpa [hch] using hch'
      exact h.closing _ hl
    · rcases hx with ⟨b, body, -, rfl⟩ | hx
      · cases hx'
      · exact ended_of_closing ht hx

/-- Receiving takes a signal off the channel, or the end is received for a reason. -/
theorem next (h : c.Orderly offset) : (c.act store .next).Orderly offset := by
  have stopped (hover : .cancelled ∈ c.events ∨ Terminated (receivedSignals c.events) ∨
      Overruns offset c.events) : Throughout (Regular offset) (c.events ++ [.received .over]) :=
    h.events.append ⟨fun _ => rfl, fun _ => hover⟩
  have going (hc : c.transfer.cancelled = false) (hcl : c.transfer.closed = false) :
      ¬(.cancelled ∈ c.events ∨ Terminated (receivedSignals c.events)) := by
    rintro (hx | hx)
    · exact Bool.false_ne_true (hc.symm.trans (h.cancelled.2 hx))
    · exact Bool.false_ne_true (hcl.symm.trans (h.closed hx))
  have counted {u : Transfer} (x : Receipt) (hplan : u.plan = c.transfer.plan)
      (hprogress : u.progress = c.transfer.progress) (hphase : u.phase = c.transfer.phase) :
      Counted offset { c with transfer := u, events := c.events ++ [.received x] } :=
    h.counted.append hplan hprogress hphase rfl
  simp only [Course.act, Transfer.next, Bool.or_eq_true]
  split
  · rename_i hstop
    refine h.quiet (counted .over rfl rfl rfl) (by simp) (by simp) (by simp) rfl rfl rfl h.closing
      h.ended h.terminated id (stopped ?_)
    rcases hstop with hcl | hc
    · exact .inr ((h.finished hcl).imp_right h.counted.lost)
    · exact .inl (h.cancelled.1 hc)
  rename_i hgo
  rw [not_or, Bool.not_eq_true, Bool.not_eq_true] at hgo
  obtain ⟨hcl, hc⟩ := hgo
  split
  · rename_i x rest hch
    have hno : ¬Terminated (receivedSignals c.events) := fun hx => going hc hcl (.inr hx)
    exact
      { counted := counted _ rfl rfl rfl
        handed := by simp [h.handed, hch]
        last := by simpa using h.last
        closing := h.closing
        ended := by simpa using h.ended
        terminated := by simpa using h.terminated
        closed := by simp [terminated_append, terminated_singleton, hno]
        finished := by simp +contextual [terminated_append, terminated_singleton]
        cancelled := by simpa using h.cancelled
        events := h.events.append ⟨fun hx => absurd hx (going hc hcl), fun hx => by cases hx⟩ }
  · rename_i hch
    split
    · rename_i hp
      have silent : Terminated (receivedSignals c.events) ∨ c.transfer.phase = .lost := by
        refine (isEnded_iff.1 hp).imp_left fun hp' => ?_
        have hx := h.terminated hp' hc
        rwa [h.handed, hch, List.append_nil] at hx
      exact
        { counted := counted _ rfl rfl rfl
          handed := by simp [h.handed]
          last := by simpa using h.last
          closing := h.closing
          ended := by simpa using h.ended
          terminated := by simpa using h.terminated
          closed := fun _ => rfl
          finished := fun _ => by simpa using silent
          cancelled := by simpa using h.cancelled
          events := stopped (.inr (silent.imp_right h.counted.lost)) }
    · exact h.quiet (counted _ rfl rfl rfl) (by simp) (by simp) (by simp) rfl rfl rfl h.closing
        h.ended h.terminated id
        (h.events.append ⟨fun hx => absurd hx (going hc hcl), fun hx => by cases hx⟩)

/-- Every act keeps the protocol. -/
theorem act (store : Store σ) (h : c.Orderly offset) (a : Act) :
    (c.act store a).Orderly offset := by
  cases a with
  | work => exact h.work store
  | pass span =>
    have hcounted := h.counted.lapse span
    simp only [Course.act, lapse] at hcounted ⊢
    split
    · rename_i left hp
      simp only [hp] at hcounted
      refine h.quiet hcounted rfl rfl .rfl rfl rfl rfl (fun last hl => ?_) (fun hx => ?_)
        (fun hx => ?_) (fun hx => ?_) h.events
      · cases hl
      · cases hp.symm.trans (h.ended hx)
      · cases hx
      · cases hp.symm.trans hx
    · exact h
  | request n =>
    simp only [Course.act]
    split
    · rename_i u hu
      unfold Transfer.request at hu
      split at hu
      · cases hu
      · cases hu
        exact h.quiet (h.counted.append rfl rfl rfl rfl) (by simp) (by simp) (by simp) rfl rfl rfl
          h.closing h.ended h.terminated id (h.events.append trivial)
    · exact h
  | next => exact h.next
  | cancel =>
    exact
      { counted := h.counted.append rfl rfl rfl rfl
        handed := by simpa [Course.act, Transfer.cancel] using h.handed
        last := by simpa [Course.act] using h.last
        closing := h.closing
        ended := by simpa [Course.act, Transfer.cancel] using h.ended
        terminated := fun _ hc => by cases hc
        closed := by simpa [Course.act, Transfer.cancel] using h.closed
        finished := by simpa [Course.act, Transfer.cancel] using h.finished
        cancelled := by simp [Course.act, Transfer.cancel]
        events := h.events.append trivial }

/-- Every course keeps the protocol. -/
theorem run (store : Store σ) (h : c.Orderly offset) (acts : List Act) :
    (c.run store acts).Orderly offset := by
  induction acts generalizing c with
  | nil => exact h
  | cons a acts ih => exact ih (h.act store a)

end Course.Orderly

/-! ### Polling the body -/

/-- The task polls its body: with another body its next step would be another one. -/
def Polls (t : Transfer) : Prop :=
  ∃ body body', t.phase = .reading body ∧ { t with phase := .reading body' }.advance ≠ t.advance

/-- With demand and bytes missing the next item of a body decides the next step. -/
theorem advance_of_demand (hc : t.cancelled = false) (hd : t.progress.isComplete = false)
    (hn : t.demandNow ≠ 0) (body : List Item) :
    { t with phase := .reading body }.advance =
      { t.gathered with phase := .reading body }.takeItem body := by
  simp only [advance]
  rw [if_neg (Bool.eq_false_iff.1 hc), if_neg (Bool.eq_false_iff.1 hd)]
  exact if_neg hn

/-- A body is polled by a task that is not cancelled and has demand and bytes missing. -/
theorem polls_iff :
    t.Polls ↔ t.cancelled = false ∧ (∃ body, t.phase = .reading body) ∧
      t.progress.isComplete = false ∧ t.demandNow ≠ 0 := by
  constructor
  · rintro ⟨body, body', hp, hne⟩
    refine ⟨?_, ⟨body, hp⟩, ?_, fun hn => hne ?_⟩
    · rw [← Bool.not_eq_true]
      exact fun hc => hne (by simp [advance, hp, hc])
    · rw [← Bool.not_eq_true]
      exact fun hd => hne (by simp [advance, hp, hd])
    · have hn' : { t with phase := .reading body' }.demandNow = 0 := hn
      simp [advance, hp, hn, hn']
  · rintro ⟨hc, ⟨body, hp⟩, hd, hn⟩
    -- A body that stalls holds the task up, and a body that has ended does not.
    have stall : { t with phase := .reading [.stall] }.advance = none :=
      advance_of_demand hc hd hn [.stall]
    have ended := advance_of_demand hc hd hn []
    cases ha : t.advance with
    | none => exact ⟨body, [], hp, fun h => by cases ended.symm.trans (h.trans ha)⟩
    | some u => exact ⟨body, [.stall], hp, fun h => by cases stall.symm.trans (h.trans ha)⟩

theorem not_polls_of_cancelled (hc : t.cancelled = true) : ¬t.Polls :=
  fun h => Bool.false_ne_true ((polls_iff.1 h).1.symm.trans hc)

/-! ### After the cancellation -/

/-- An act in the course of a cancelled transfer asks for nothing and makes no progress. -/
theorem Course.act_of_cancelled (store : Store σ) (hc : c.transfer.cancelled = true) (a : Act) :
    (c.act store a).transfer.cancelled = true ∧
      (c.act store a).transfer.progress = c.transfer.progress ∧
      (c.act store a).outside = c.outside ∧
      requests (c.act store a).events = requests c.events := by
  cases a with
  | work =>
    change (c.work store).transfer.cancelled = true ∧ (c.work store).transfer.progress = _ ∧
      (c.work store).outside = _ ∧ requests (c.work store).events = _
    rcases Course.act_work store c with he | ⟨t', s', exchanges, ht, hcases⟩
    · rw [he]
      exact ⟨hc, rfl, rfl, rfl⟩
    · obtain ⟨rfl, hs⟩ := eq_of_transition_of_cancelled hc ht
      cases hs
      rcases hcases with ⟨he, -⟩ | ⟨answer, -, hp', -⟩ | ⟨x, hch, -⟩
      · rw [he]
        exact ⟨hc, rfl, rfl, rfl⟩
      · cases hp'
      · simp at hch
  | pass span =>
    simp only [Course.act, lapse]
    split <;> exact ⟨hc, rfl, trivial, trivial⟩
  | request n =>
    simp only [Course.act, request]
    by_cases hn : n = 0 <;> simp [hn, grant, hc]
  | next =>
    have hn : c.transfer.next = (c.transfer.next.1, c.transfer.next.2) := rfl
    obtain ⟨-, hprogress, -⟩ := next_frame hn
    exact ⟨by simp [Course.act, Transfer.next, hc], hprogress, rfl, by simp [Course.act]⟩
  | cancel => exact ⟨rfl, rfl, rfl, by simp [Course.act]⟩

/-- A cancelled transfer asks for nothing, makes no progress and polls no body, whatever is done. -/
theorem Course.run_of_cancelled (store : Store σ) (hc : c.transfer.cancelled = true)
    (acts : List Act) :
    ¬(c.run store acts).transfer.Polls ∧
      (c.run store acts).transfer.progress = c.transfer.progress ∧
      (c.run store acts).outside = c.outside ∧
      requests (c.run store acts).events = requests c.events := by
  induction acts generalizing c with
  | nil => exact ⟨not_polls_of_cancelled hc, rfl, rfl, rfl⟩
  | cons a acts ih =>
    obtain ⟨hc', hprogress, houtside, hrequests⟩ := Course.act_of_cancelled store hc a
    obtain ⟨hpolls, hprogress', houtside', hrequests'⟩ := ih hc'
    exact ⟨hpolls, hprogress'.trans hprogress, houtside'.trans houtside,
      hrequests'.trans hrequests⟩

/-! ### The number of requests -/

/-- How many requests a transfer can still make: one for each retry, and the one it is about to
make. -/
def attemptsLeft (t : Transfer) : Nat :=
  t.progress.retriesLeft +
    match t.phase with
    | .opening | .pausing _ => 1
    | _ => 0

theorem Concluded.attemptsLeft_le (h : t.Concluded t') :
    t'.attemptsLeft ≤ t.progress.retriesLeft := by
  cases h with
  | closing hl => exact Nat.le_refl _
  | pausing hl => exact Nat.le_of_eq hl.symm

/-- A step of the task uses up a request where it makes one, and never gains one. -/
theorem attemptsLeft_transition (ht : Transition store t s t' s') :
    t'.attemptsLeft ≤ t.attemptsLeft ∧
      (t.phase = .opening → ∀ answer, t'.phase = .awaiting answer →
        t'.attemptsLeft + 1 = t.attemptsLeft) := by
  have concluded {u : Transfer} (hu : u.progress.retriesLeft = t.progress.retriesLeft)
      (h : u.Concluded t') : t'.attemptsLeft ≤ t.attemptsLeft :=
    Nat.le_trans (h.attemptsLeft_le.trans_eq hu) (Nat.le_add_right _ _)
  have other {ph : Phase} (hp : t.phase = ph) (hne : ph ≠ .opening) : t.phase = .opening →
      ∀ answer, t'.phase = .awaiting answer → t'.attemptsLeft + 1 = t.attemptsLeft :=
    fun ho => absurd (hp.symm.trans ho) hne
  cases ht with
  | stop hc hp => exact ⟨Nat.le_add_right _ _, fun _ _ => nofun⟩
  | ask hc hp => simp [attemptsLeft, hp]
  | fail hc hp => exact ⟨concluded rfl (concluded_refused t _), other hp nofun⟩
  | accept hc hp ha hf =>
    obtain ⟨rfl, -⟩ := accept_eq_ok ha
    exact ⟨Nat.le_add_right _ _, other hp nofun⟩
  | overflow hc hp ha hf => exact ⟨Nat.le_add_right _ _, other hp nofun⟩
  | reject hc hp ha => exact ⟨concluded rfl (concluded_refused t _), other hp nofun⟩
  | reach hc hp hd => exact ⟨Nat.le_add_right _ _, other hp nofun⟩
  | finish hc hp hd hn =>
    exact ⟨concluded (u := t.gathered) rfl (concluded_bodyEnded _), other hp nofun⟩
  | breakOff hc hp hd hn =>
    exact ⟨concluded (u := t.gathered) rfl (concluded_retry _ _), other hp nofun⟩
  | skip hc hp hd hn => exact ⟨Nat.le_add_right _ _, other hp nofun⟩
  | take hc hp hd hn => exact ⟨Nat.le_add_right _ _, other hp nofun⟩
  | hand hc hp hr hf => exact ⟨Nat.le_add_right _ _, other hp nofun⟩
  | overrun hc hp hr hf => exact ⟨Nat.le_add_right _ _, other hp nofun⟩
  | wake hc hp hl => exact ⟨by simp [attemptsLeft, hp], other hp nofun⟩
  | close hc hp hr => exact ⟨Nat.le_add_right _ _, other hp nofun⟩

/-- No act makes more requests than it uses up. -/
theorem Course.requests_act (store : Store σ) (c : Course σ) (a : Act) :
    (requests (c.act store a).events).length + (c.act store a).transfer.attemptsLeft ≤
      (requests c.events).length + c.transfer.attemptsLeft := by
  cases a with
  | work =>
    change (requests (c.work store).events).length + (c.work store).transfer.attemptsLeft ≤ _
    rcases Course.act_work store c with he | ⟨t', s', exchanges, ht, hcases⟩
    · rw [he]
    · obtain ⟨hle, heq⟩ := attemptsLeft_transition ht
      rcases hcases with ⟨he, -⟩ | ⟨answer, hp, hp', -, he⟩ | ⟨x, -, -, he⟩
      · rw [he]
        exact Nat.add_le_add_left hle _
      · have := heq hp answer hp'
        simp only [he, requests_append, requests_singleton, Event.request, Option.toList_some,
          List.length_append, List.length_singleton]
        omega
      · simpa [he] using hle
  | pass span =>
    simp only [Course.act, lapse]
    split
    · rename_i left hp
      simp [attemptsLeft, hp]
    · exact Nat.le_refl _
  | request n =>
    simp only [Course.act, request]
    by_cases hn : n = 0 <;> simp [hn, grant, attemptsLeft]
  | next =>
    have hn : c.transfer.next = (c.transfer.next.1, c.transfer.next.2) := rfl
    obtain ⟨-, hprogress, hphase, -⟩ := next_frame hn
    simp [Course.act, attemptsLeft, hprogress, hphase]
  | cancel => simp [Course.act, Transfer.cancel, attemptsLeft]

/-- No more requests are made in a course than could be made at its beginning. -/
theorem Course.requests_run (store : Store σ) (c : Course σ) (acts : List Act) :
    (requests (c.run store acts).events).length + (c.run store acts).transfer.attemptsLeft ≤
      (requests c.events).length + c.transfer.attemptsLeft := by
  induction acts generalizing c with
  | nil => exact Nat.le_refl _
  | cons a acts ih => exact (ih _).trans (c.requests_act store a)

end QueryResults.Download.Transfer
