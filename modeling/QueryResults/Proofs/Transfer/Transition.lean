import Mathlib
import QueryResults.Download.Fetcher

/-!
# What one step of a transfer can do

Every step of the task of a transfer is one of fifteen transitions, each with the condition under
which it is taken. Properties that every step keeps are proved by cases on the transition and never
by opening the step itself.

## Main definitions

* `Transfer.gathered`: a transfer that has taken the demand granted so far into account.
* `Transfer.Concluded`: how an attempt is concluded.
* `Transfer.Transition`: what one step does.
* `Transfer.Resting`: what a transfer that makes no step is waiting for.

## Main results

* `Transfer.transition_of_step`: a step is a transition.
* `Transfer.settle_induction`: what every transition keeps holds once the transfer is at rest.
* `Transfer.step_settle`, `Transfer.resting_of_step_eq_none`: a transfer at rest makes no step, and
  one that makes no step waits for something.
-/

namespace QueryResults.Download.Transfer

open Store

variable {σ : Type} {store : Store σ} {t t' : Transfer} {s s' : σ}

/-- A task is over once it has ended or broken down. -/
theorem isEnded_iff : t.isEnded = true ↔ t.phase = .ended ∨ t.phase = .lost := by
  cases hp : t.phase <;> simp [isEnded, hp]

/-- The transfer once all demand granted so far is taken into account. -/
def gathered (t : Transfer) : Transfer :=
  { t with progress := { t.progress with demand := t.demandNow }, granted := [] }

/-! ### The conclusion of an attempt -/

/-- How an attempt is concluded: by the last signal, or by a pause that costs one retry. -/
inductive Concluded (t : Transfer) : Transfer → Prop
  | closing {last : Signal} (hl : last.isTerminal = true) :
      Concluded t { t with phase := .closing last }
  | pausing {left : Nat} {failures : List Failure} {wait : Duration}
      (hl : t.progress.retriesLeft = left + 1) :
      Concluded t
        { t with
          progress := { t.progress with retriesLeft := left, failures }
          phase := .pausing wait }

theorem concluded_retry (t : Transfer) (e : Failure) : t.Concluded (t.retry e) := by
  unfold retry
  split
  · exact .closing rfl
  · rename_i h
    rw [not_or] at h
    exact .pausing (by omega)

theorem concluded_refused (t : Transfer) (e : Failure) : t.Concluded (t.refused e) := by
  unfold refused
  split
  · exact concluded_retry t _
  · exact .closing rfl

theorem concluded_bodyEnded (t : Transfer) : t.Concluded t.bodyEnded := by
  unfold bodyEnded
  split
  · split
    · exact concluded_retry t _
    · exact .closing rfl
  · exact .closing rfl

namespace Concluded

theorem plan_eq (h : t.Concluded t') : t'.plan = t.plan := by cases h <;> rfl

theorem channel_eq (h : t.Concluded t') : t'.channel = t.channel := by cases h <;> rfl

theorem cancelled_eq (h : t.Concluded t') : t'.cancelled = t.cancelled := by cases h <;> rfl

theorem closed_eq (h : t.Concluded t') : t'.closed = t.closed := by cases h <;> rfl

theorem granted_eq (h : t.Concluded t') : t'.granted = t.granted := by cases h <;> rfl

theorem demand_eq (h : t.Concluded t') : t'.progress.demand = t.progress.demand := by
  cases h <;> rfl

theorem delivered_eq (h : t.Concluded t') : t'.progress.delivered = t.progress.delivered := by
  cases h <;> rfl

/-- What is waited for next is room for the last signal or the end of a pause. -/
theorem phase_eq (h : t.Concluded t') :
    (∃ last, t'.phase = .closing last ∧ last.isTerminal = true) ∨
      ∃ left, t'.phase = .pausing left := by
  cases h with
  | closing hl => exact .inl ⟨_, rfl, hl⟩
  | pausing hl => exact .inr ⟨_, rfl⟩

end Concluded

/-! ### Transitions -/

/-- What one step of the task does to a transfer and to the state of the store. -/
inductive Transition (store : Store σ) (t : Transfer) (s : σ) : Transfer → σ → Prop
  | stop (hc : t.cancelled = true) (hp : t.isEnded = false) :
      Transition store t s { t with phase := .ended } s
  | ask (hc : t.cancelled = false) (hp : t.phase = .opening) :
      Transition store t s { t with phase := .awaiting (store.get t.nextRequest s).1 }
        (store.get t.nextRequest s).2
  | fail {e : Failure} (hc : t.cancelled = false) (hp : t.phase = .awaiting (.failure e)) :
      Transition store t s (t.refused e) s
  | accept {r : Response} {p : Progress} (hc : t.cancelled = false)
      (hp : t.phase = .awaiting (.response r)) (ha : t.progress.accept r = .ok p)
      (hf : t.progress.fits r = true) :
      Transition store t s { t with progress := p, phase := .reading r.body } s
  | overflow {r : Response} {p : Progress} (hc : t.cancelled = false)
      (hp : t.phase = .awaiting (.response r)) (ha : t.progress.accept r = .ok p)
      (hf : t.progress.fits r = false) :
      Transition store t s { t with progress := { t.progress with etag := p.etag }, phase := .lost }
        s
  | reject {r : Response} {e : Failure} (hc : t.cancelled = false)
      (hp : t.phase = .awaiting (.response r)) (ha : t.progress.accept r = .error e) :
      Transition store t s (t.refused e) s
  | reach {body : List Item} (hc : t.cancelled = false) (hp : t.phase = .reading body)
      (hd : t.progress.isComplete = true) :
      Transition store t s { t with phase := .closing .complete } s
  | finish (hc : t.cancelled = false) (hp : t.phase = .reading [])
      (hd : t.progress.isComplete = false) (hn : t.demandNow ≠ 0) :
      Transition store t s t.gathered.bodyEnded s
  | breakOff {e : Failure} {body : List Item} (hc : t.cancelled = false)
      (hp : t.phase = .reading (.failure e :: body)) (hd : t.progress.isComplete = false)
      (hn : t.demandNow ≠ 0) :
      Transition store t s (t.gathered.retry (t.located e)) s
  | skip {body : List Item} (hc : t.cancelled = false) (hp : t.phase = .reading (.chunk [] :: body))
      (hd : t.progress.isComplete = false) (hn : t.demandNow ≠ 0) :
      Transition store t s { t.gathered with phase := .reading body } s
  | take {b : UInt8} {bytes : List UInt8} {body : List Item} (hc : t.cancelled = false)
      (hp : t.phase = .reading (.chunk (b :: bytes) :: body))
      (hd : t.progress.isComplete = false) (hn : t.demandNow ≠ 0) :
      Transition store t s { t.gathered with phase := .offering (b :: bytes) body } s
  | hand {bytes : List UInt8} {body : List Item} (hc : t.cancelled = false)
      (hp : t.phase = .offering bytes body) (hr : t.hasRoom = true)
      (hf : t.progress.reaches bytes = true) :
      Transition store t s
        { t with
          channel := t.channel ++ [.chunk bytes]
          progress := t.progress.afterChunk bytes
          phase := .reading body } s
  | overrun {bytes : List UInt8} {body : List Item} (hc : t.cancelled = false)
      (hp : t.phase = .offering bytes body) (hr : t.hasRoom = true)
      (hf : t.progress.reaches bytes = false) :
      Transition store t s
        { t with
          channel := t.channel ++ [.chunk bytes]
          progress := t.progress.afterChunk bytes
          phase := .lost } s
  | wake {left : Duration} (hc : t.cancelled = false) (hp : t.phase = .pausing left)
      (hl : left.nanos = 0) :
      Transition store t s { t with phase := .opening } s
  | close {last : Signal} (hc : t.cancelled = false) (hp : t.phase = .closing last)
      (hr : t.hasRoom = true) :
      Transition store t s { t with channel := t.channel ++ [last], phase := .ended } s

/-- A cancelled task ends, whatever it was about. -/
theorem transition_of_cancelled (hc : t.cancelled = true) (h : t.advance = some t') :
    Transition store t s t' s := by
  have hp : t.isEnded = false := by
    cases hp : t.phase with
    | ended | lost => simp [advance, hp] at h
    | _ => simp [isEnded, hp]
  have hstop : some { t with phase := .ended } = some t' := by
    rw [← h]
    cases hph : t.phase with
    | ended | lost => simp [isEnded, hph] at hp
    | _ => simp [advance, hph, hc]
  cases hstop
  exact .stop hc hp

/-- What becomes of the next item of a body that is read. -/
theorem transition_of_takeItem {body : List Item} (hc : t.cancelled = false)
    (hp : t.phase = .reading body) (hd : t.progress.isComplete = false) (hn : t.demandNow ≠ 0)
    (h : t.gathered.takeItem body = some t') : Transition store t s t' s := by
  cases body with
  | nil =>
    cases h
    exact .finish hc hp hd hn
  | cons i body =>
    cases i with
    | stall => cases h
    | failure e =>
      cases h
      exact .breakOff hc hp hd hn
    | chunk bytes =>
      cases bytes with
      | nil =>
        cases h
        exact .skip hc hp hd hn
      | cons b bytes =>
        cases h
        exact .take hc hp hd hn

/-- A step that does not involve the store is a transition. -/
theorem transition_of_advance (h : t.advance = some t') : Transition store t s t' s := by
  cases hc : t.cancelled with
  | true => exact transition_of_cancelled hc h
  | false =>
    have hgo : ¬t.cancelled = true := Bool.eq_false_iff.1 hc
    cases hp : t.phase with
    | ended | lost => simp [advance, hp] at h
    | opening => simp [advance, hp, hc] at h
    | awaiting answer =>
      simp only [advance, hp, if_neg hgo] at h
      cases answer with
      | silence => cases h
      | failure e =>
        cases h
        exact .fail hc hp
      | response r =>
        cases ha : t.progress.accept r with
        | ok p =>
          simp only [ha] at h
          split at h <;> rename_i hf <;> cases h
          · exact .accept hc hp ha hf
          · exact .overflow hc hp ha (Bool.eq_false_iff.2 hf)
        | error e =>
          simp only [ha] at h
          cases h
          exact .reject hc hp ha
    | reading body =>
      simp only [advance, hp, if_neg hgo] at h
      split at h
      · rename_i hd
        cases h
        exact .reach hc hp hd
      · rename_i hd
        split at h
        · cases h
        · rename_i hn
          exact transition_of_takeItem hc hp (Bool.eq_false_iff.2 hd) hn h
    | offering bytes body =>
      simp only [advance, hp, if_neg hgo] at h
      split at h
      · rename_i hr
        cases h
        cases hf : t.progress.reaches bytes with
        | true =>
          rw [if_pos rfl]
          exact .hand hc hp hr hf
        | false =>
          rw [if_neg Bool.false_ne_true]
          exact .overrun hc hp hr hf
      · cases h
    | pausing left =>
      simp only [advance, hp, if_neg hgo] at h
      split at h
      · rename_i hl
        cases h
        exact .wake hc hp hl
      · cases h
    | closing last =>
      simp only [advance, hp, if_neg hgo] at h
      split at h
      · rename_i hr
        cases h
        exact .close hc hp hr
      · cases h

/-- A step of the task is a transition. -/
theorem transition_of_step (h : t.step store s = some (t', s')) : Transition store t s t' s' := by
  unfold step at h
  split at h
  · rename_i hp hc
    cases h
    exact .ask hc hp
  · simp only [Option.map_eq_some_iff, Prod.mk.injEq] at h
    obtain ⟨u, hu, rfl, rfl⟩ := h
    exact transition_of_advance hu

/-- What holds of a transfer and is kept by every transition holds of the transfer at rest. -/
theorem settle_induction {P : Transfer → σ → Prop}
    (hstep : ∀ t s t' s', P t s → Transition store t s t' s' → P t' s') (h : P t s) :
    P (settle store t s).1 (settle store t s).2 := by
  fun_induction settle store t s with
  | case1 t s _ => exact h
  | case2 t s t' s' hs ih => exact ih (hstep t s t' s' h (transition_of_step hs))

/-- A transfer at rest makes no step. -/
theorem step_settle (store : Store σ) (t : Transfer) (s : σ) :
    (settle store t s).1.step store (settle store t s).2 = none := by
  fun_induction settle store t s with
  | case1 t s hs => exact hs
  | case2 t s t' s' _ ih => exact ih

/-- What a transfer that makes no step is waiting for. -/
inductive Resting (t : Transfer) : Prop
  | ended (hp : t.isEnded = true)
  | silent (hp : t.phase = .awaiting .silence)
  | stalled {body : List Item} (hp : t.phase = .reading (.stall :: body))
  | starved {body : List Item} (hp : t.phase = .reading body) (hn : t.demandNow = 0)
  | full (hp : t.isEnded = false) (hr : t.hasRoom = false)
  | pausing {left : Duration} (hp : t.phase = .pausing left)

theorem resting_of_step_eq_none (hc : t.cancelled = false) (h : t.step store s = none) :
    Resting t := by
  cases hp : t.phase with
  | opening => simp [step, hp, hc] at h
  | awaiting answer =>
    cases answer with
    | silence => exact .silent hp
    | failure e => simp [step, advance, hp, hc] at h
    | response r =>
      cases ha : t.progress.accept r <;> simp [step, advance, hp, hc, ha] at h
      split at h <;> cases h
  | reading body =>
    by_cases hn : t.demandNow = 0
    · exact .starved hp hn
    · have hd : t.progress.isComplete = false := by
        rw [← Bool.not_eq_true]
        intro hd
        simp [step, advance, hp, hc, hd] at h
      cases body with
      | nil => simp [step, advance, hp, hc, hn, hd, takeItem] at h
      | cons i body =>
        cases i with
        | stall => exact .stalled hp
        | failure e => simp [step, advance, hp, hc, hn, hd, takeItem] at h
        | chunk b => cases b <;> simp [step, advance, hp, hc, hn, hd, takeItem] at h
  | offering b body =>
    exact .full (by simp [isEnded, hp]) (by simpa [step, advance, hp, hc] using h)
  | pausing left => exact .pausing hp
  | closing last => exact .full (by simp [isEnded, hp]) (by simpa [step, advance, hp, hc] using h)
  | ended | lost => exact .ended (by simp [isEnded, hp])

end QueryResults.Download.Transfer
