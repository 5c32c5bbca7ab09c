import QueryResults.Proofs.Transfer.Sound

/-!
# Courses of transfers

The task of a transfer and its consumer act in any order, one act at a time, and time passes between
their acts. The *course* of a transfer is what has become of it after some acts, together with all
that has happened between the task, the store and the consumer, in order: requests with their
answers, signals handed over, demand granted, signals received, and the cancellation.

Requests are taken from the log of the store, and signals handed over from the channel, so the
events of a course repeat nothing of how the task works.

## Main definitions

* `Transfer.Act`, `Transfer.Event`, `Transfer.Course`.
* `Course.act`, `Course.run`: what becomes of a course.
* `Transfer.handedBytes`, `Transfer.receivedBytes`: the bytes delivered in a list of events.
* `Transfer.Throughout`: what holds of every event and of all that went before it.

## Main results

* `Course.act_work`: what one step of the task adds to a course.
-/

namespace QueryResults.Download.Transfer

open Store

/-- What can be done in the course of a transfer. -/
inductive Act where
  /-- The task makes one step, if it can. -/
  | work
  /-- A span of time goes by. -/
  | pass (span : Duration)
  /-- The consumer grants demand. -/
  | request (n : UInt64)
  /-- The consumer asks for the next signal. -/
  | next
  /-- The consumer cancels the transfer, or is gone. -/
  | cancel

/-- What happens between a transfer, its store and its consumer. -/
inductive Event where
  | asked (x : Exchange)
  | handed (x : Signal)
  | granted (n : UInt64)
  | received (x : Receipt)
  | cancelled

/-- A transfer, the state of its store, and what has happened so far, oldest first. -/
structure Course (σ : Type) where
  transfer : Transfer
  outside : σ
  events : List Event := []

/-- The transfer after a span of time. -/
def lapse (span : Duration) (t : Transfer) : Transfer :=
  match t.phase with
  | .pausing left => { t with phase := .pausing ⟨left.nanos - span.nanos⟩ }
  | _ => t

theorem cancelled_lapse (t : Transfer) (span : Duration) :
    (t.lapse span).cancelled = t.cancelled := by
  unfold lapse
  split <;> rfl

theorem progress_lapse (t : Transfer) (span : Duration) :
    (t.lapse span).progress = t.progress := by
  unfold lapse
  split <;> rfl

variable {σ : Type}

/-- One step of the task in the course of a transfer. -/
def Course.work (store : Store σ) (c : Course σ) : Course σ :=
  match c.transfer.step store.logged (c.outside, []) with
  | none => c
  | some (t, outside, exchanges) =>
    { transfer := t
      outside
      events := c.events ++ exchanges.map .asked ++
        (t.channel.drop c.transfer.channel.length).map .handed }

/-- What becomes of the course of a transfer by one act. -/
def Course.act (store : Store σ) (c : Course σ) : Act → Course σ
  | .work => c.work store
  | .pass span => { c with transfer := c.transfer.lapse span }
  | .request n =>
    match c.transfer.request n with
    | .ok t => { c with transfer := t, events := c.events ++ [.granted n] }
    | .error _ => c
  | .next =>
    { c with
      transfer := c.transfer.next.2
      events := c.events ++ [.received c.transfer.next.1] }
  | .cancel => { c with transfer := c.transfer.cancel, events := c.events ++ [.cancelled] }

/-- What becomes of the course of a transfer by acts in any order. -/
def Course.run (store : Store σ) (c : Course σ) (acts : List Act) : Course σ :=
  acts.foldl (Course.act store) c

/-! ### Events -/

/-- The bytes of an event in which a signal is handed over. -/
def Event.handedBytes : Event → List UInt8
  | handed x => x.bytes
  | _ => []

/-- The bytes of an event in which a signal is received. -/
def Event.receivedBytes : Event → List UInt8
  | received (.signal x) => x.bytes
  | _ => []

/-- The bytes handed over in the order in which they were. -/
def handedBytes (events : List Event) : List UInt8 := events.flatMap Event.handedBytes

/-- The bytes received in the order in which they were. -/
def receivedBytes (events : List Event) : List UInt8 := events.flatMap Event.receivedBytes

/-- Whether the store has answered a request with a response. -/
def Answered (events : List Event) : Prop := ∃ q r, .asked ⟨q, .response r⟩ ∈ events

@[simp] theorem handedBytes_append (l l' : List Event) :
    handedBytes (l ++ l') = handedBytes l ++ handedBytes l' := List.flatMap_append

@[simp] theorem receivedBytes_append (l l' : List Event) :
    receivedBytes (l ++ l') = receivedBytes l ++ receivedBytes l' := List.flatMap_append

/-- What holds of every event, given all that went before it. -/
def Throughout (P : List Event → Event → Prop) (events : List Event) : Prop :=
  ∀ before x after, events = before ++ x :: after → P before x

theorem throughout_nil (P : List Event → Event → Prop) : Throughout P [] := by
  intro before x after h
  exact absurd h.symm (by simp)

theorem Throughout.append {P : List Event → Event → Prop} {l : List Event} {y : Event}
    (h : Throughout P l) (hy : P l y) : Throughout P (l ++ [y]) := by
  intro before x after he
  rcases List.eq_nil_or_concat after with rfl | ⟨init, z, rfl⟩
  · obtain ⟨rfl, hx⟩ := List.append_inj' he rfl
    cases hx
    exact hy
  · rw [List.concat_eq_append, ← List.cons_append, ← List.append_assoc] at he
    exact h before x init (List.append_inj' he rfl).1

/-! ### Steps of the task -/

variable {store : Store σ} {t t' : Transfer} {s s' : σ} {o : Object}

/-- What a step of the task shows: nothing, a request with its answer, or a signal. -/
theorem shown_of_transition {exchanges : List Exchange}
    (ht : Transition store.logged t (s, []) t' (s', exchanges)) :
    (exchanges = [] ∧ t'.channel = t.channel) ∨
      (t.phase = .opening ∧ t'.channel = t.channel ∧
        ∃ answer, exchanges = [⟨t.nextRequest, answer⟩] ∧ t'.phase = .awaiting answer) ∨
      (exchanges = [] ∧ ∃ x, t'.channel = t.channel ++ [x] ∧
        ((∃ b body, t.phase = .offering b body ∧ x = .chunk b) ∨ t.phase = .closing x)) := by
  cases ht with
  | ask hc hp => exact .inr (.inl ⟨hp, rfl, _, rfl, rfl⟩)
  | hand hc hp hr hf | overrun hc hp hr hf =>
    exact .inr (.inr ⟨rfl, _, rfl, .inl ⟨_, _, hp, rfl⟩⟩)
  | close hc hp hr => exact .inr (.inr ⟨rfl, _, rfl, .inr hp⟩)
  | stop hc hp => exact .inl ⟨rfl, rfl⟩
  | fail hc hp => exact .inl ⟨rfl, (concluded_refused t _).channel_eq⟩
  | accept hc hp ha hf | overflow hc hp ha hf => exact .inl ⟨rfl, rfl⟩
  | reject hc hp ha => exact .inl ⟨rfl, (concluded_refused t _).channel_eq⟩
  | reach hc hp hd => exact .inl ⟨rfl, rfl⟩
  | finish hc hp hd hn => exact .inl ⟨rfl, (concluded_bodyEnded t.gathered).channel_eq⟩
  | breakOff hc hp hd hn => exact .inl ⟨rfl, (concluded_retry t.gathered _).channel_eq⟩
  | skip hc hp hd hn => exact .inl ⟨rfl, rfl⟩
  | take hc hp hd hn => exact .inl ⟨rfl, rfl⟩
  | wake hc hp hl => exact .inl ⟨rfl, rfl⟩

/-- What one step of the task adds to a course: at most one event. -/
theorem Course.act_work (store : Store σ) (c : Course σ) :
    c.work store = c ∨
      ∃ t' s' exchanges, Transition store.logged c.transfer (c.outside, []) t' (s', exchanges) ∧
        ((c.work store = ⟨t', s', c.events⟩ ∧ t'.channel = c.transfer.channel) ∨
          (∃ answer, c.transfer.phase = .opening ∧ t'.phase = .awaiting answer ∧
            t'.channel = c.transfer.channel ∧
            c.work store =
              ⟨t', s', c.events ++ [.asked ⟨c.transfer.nextRequest, answer⟩]⟩) ∨
          (∃ x, t'.channel = c.transfer.channel ++ [x] ∧
            ((∃ b body, c.transfer.phase = .offering b body ∧ x = .chunk b) ∨
              c.transfer.phase = .closing x) ∧
            c.work store = ⟨t', s', c.events ++ [.handed x]⟩)) := by
  cases hs : c.transfer.step store.logged (c.outside, []) with
  | none => exact .inl (by simp only [work, hs])
  | some r =>
    obtain ⟨t', s', exchanges⟩ := r
    have ht := transition_of_step hs
    refine .inr ⟨t', s', exchanges, ht, ?_⟩
    rcases shown_of_transition ht with ⟨rfl, hch⟩ | ⟨hp, hch, answer, rfl, ha⟩ | ⟨rfl, x, hch, hx⟩
    · exact .inl ⟨by simp [work, hs, hch], hch⟩
    · exact .inr (.inl ⟨answer, hp, ha, hch, by simp [work, hs, hch]⟩)
    · exact .inr (.inr ⟨x, hch, hx, by simp [work, hs, hch]⟩)

end QueryResults.Download.Transfer
