import QueryResults.Proofs.Transfer.Attempts
import QueryResults.Proofs.Transfer.Delivery
import QueryResults.Proofs.Transfer.Demand

/-!
# Collecting an object

Collecting a sound transfer to its end gives what was pending, if it gives any bytes at all
(`Transfer.collect_eq_ok`): no byte is added, dropped or exchanged by the resumptions on the way.
With a prompt store collecting always comes to an end, and a failure at the end has one of the
reasons that can be read from the log (`Transfer.UnderWay.collect`).

## Main definitions

* `Transfer.UnderWay`: a transfer that is being collected, with the log of its store.
* `Fetcher.exchanges`: the requests made for a whole download.

## Main results

* `Transfer.collect_eq_ok`, `Fetcher.fetchAll_eq_ok`: what collecting gives is exact.
* `Transfer.UnderWay.collect`, `Fetcher.fetchAll_prompt`: collecting ends, in success or for a
  reason.
* `Fetcher.fetchAll_logged`: keeping a log changes nothing in what is received.
-/

namespace QueryResults.Download

open Store

variable {σ : Type} {store : Store σ} {o : Object}

namespace Transfer

variable {t t' : Transfer} {s : σ}

/-! ### What collecting gives -/

/-- Coming to rest keeps a transfer sound and changes nothing in what is pending. -/
theorem Sound.settle (hs : store.Serves t.plan.location o) (h : Sound o t) (s : σ) :
    Sound o (settle store t s).1 ∧ (settle store t s).1.pending o = t.pending o ∧
      (settle store t s).1.plan = t.plan := by
  refine settle_induction (P := fun u _ => Sound o u ∧ u.pending o = t.pending o ∧ u.plan = t.plan)
    ?_ ⟨h, rfl, rfl⟩
  rintro u v u' v' ⟨hu, hp, hplan⟩ ht
  exact ⟨hu.transition (hplan ▸ hs) ht, (hu.pending_transition ht).trans hp,
    (plan_transition ht).trans hplan⟩

/-- Time is left of a pause only while the task is pausing. -/
theorem phase_of_pauseLeft {left : Duration} (h : t.pauseLeft = some left) :
    t.phase = .pausing left := by
  unfold pauseLeft at h
  split at h
  · rename_i hp
    cases h
    exact hp
  · cases h

/-- Ending a pause keeps a transfer sound and changes nothing in what is pending. -/
theorem Sound.wake (hs : store.Serves t.plan.location o) (h : Sound o t) {left : Duration}
    (hp : t.pauseLeft = some left) (s : σ) :
    Sound o (t.wake store s).1 ∧ (t.wake store s).1.pending o = t.pending o ∧
      (t.wake store s).1.plan = t.plan := by
  have hne : t.phase ≠ .ended := phase_ne_ended (phase_of_pauseLeft hp) rfl
  exact Sound.settle (t := { t with phase := .opening }) hs (h.withPhase hne trivial) s

/-- What is collected of a sound transfer is what was pending. -/
theorem collect_eq_ok {before : List (List UInt8)} {bytes : List UInt8}
    (hs : store.Serves t.plan.location o) (h : Sound o t)
    (hb : (collect store before t s).1.result = some (.ok bytes)) :
    bytes = before.reverse.flatten ++ t.pending o := by
  fun_induction collect store before t s with
  | case1 before t s chunk t' hn rested ih =>
    have hgrant : Sound o (t'.grant 1) := { h.next hn with }
    have hplan : (t'.grant 1).plan = t.plan := (next_frame hn).1
    obtain ⟨hrest, hpend, hplan'⟩ := hgrant.settle (hplan ▸ hs) s
    rw [ih (hplan' ▸ hplan ▸ hs) hrest hb, hpend, pending_of_next hn]
    simp [Signal.bytes, pending, grant]
  | case2 before t s t' hn =>
    simp only [Option.some.injEq, Except.ok.injEq] at hb
    rw [h.pending_of_next_complete hn, ← hb, List.append_nil]
  | case3 before t s e t' hn => cases hb
  | case4 before t s t' hn location => cases hb
  | case5 before t s t' hn hp => cases hb
  | case6 before t s t' hn left hp woken rest ih =>
    obtain ⟨hwake, hpend, hplan⟩ := h.wake hs hp s
    rw [ih (hplan ▸ hs) hwake hb, hpend]

/-! ### That collecting ends -/

/-- A transfer that is being collected from a prompt store, with the log of the store. -/
structure UnderWay (o : Object) (plan : Plan) (credit : Nat) (t : Transfer) (log : List Exchange) :
    Prop where
  plan_eq : t.plan = plan
  sound : Sound o t
  charged : Charged o log t
  steady : Steady credit t

namespace UnderWay

variable {plan : Plan} {credit : Nat} {log : List Exchange}

theorem settle (hs : store.Serves plan.location o) (hp : store.IsPrompt)
    (h : UnderWay o plan credit t log) (s : σ) :
    UnderWay o plan credit (settle store.logged t (s, log)).1
      (settle store.logged t (s, log)).2.2 := by
  refine settle_induction (P := fun u (v : σ × List Exchange) => UnderWay o plan credit u v.2) ?_ h
  rintro u ⟨v, l⟩ u' ⟨v', l'⟩ hu ht
  have hsound : Sound o u' := hu.sound.transition (hu.plan_eq ▸ hs.logged) ht
  exact
    { plan_eq := (plan_transition ht).trans hu.plan_eq
      sound := hsound
      charged := hu.charged.transition hu.sound ht
      steady := hu.steady.transition hsound.phase_ne_lost hu.sound.isTerminal_of_closing
        (fun _ => hp.logged _ _) ht }

/-- Receiving a chunk and granting another. -/
theorem next_grant (h : UnderWay o plan credit t log) {chunk : List UInt8}
    (hn : t.next = (.signal (.chunk chunk), t')) : UnderWay o plan credit (t'.grant 1) log := by
  obtain ⟨rest, hc, rfl⟩ := next_eq_signal hn
  obtain ⟨hpos, hsteady⟩ := h.steady.next hn
  have hgrant : credit - 1 + (1 : UInt64).toNat = credit := Nat.sub_add_cancel hpos
  exact
    { plan_eq := h.plan_eq
      sound := { h.sound.next hn with }
      charged :=
        { spent := h.charged.spent
          phase := h.charged.phase
          blamed := fun e he => h.charged.blamed e
            (he.imp id fun he => hc ▸ List.mem_cons_of_mem _ he) }
      steady := hgrant ▸ hsteady.grant (hgrant.symm ▸ h.steady.credit_lt) }

theorem wake (hs : store.Serves plan.location o) (hp : store.IsPrompt)
    (h : UnderWay o plan credit t log) {left : Duration} (hl : t.pauseLeft = some left) (s : σ) :
    UnderWay o plan credit (t.wake store.logged (s, log)).1
      (t.wake store.logged (s, log)).2.2 := by
  have hphase := phase_of_pauseLeft hl
  have hne : t.phase ≠ .ended := phase_ne_ended hphase rfl
  have hcharged := h.charged.phase
  rw [hphase] at hcharged
  exact settle (t := { t with phase := .opening }) hs hp
    { plan_eq := h.plan_eq
      sound := h.sound.withPhase hne trivial
      charged := h.charged.withPhase h.sound hne hcharged fun _ he => by cases he
      steady := h.steady.of_phase rfl rfl rfl rfl rfl rfl trivial } s

/-- With a prompt store collecting comes to an end: with all that was pending, or with a failure for
which the log has a reason. -/
theorem collect (before : List (List UInt8)) {v : σ × List Exchange}
    (hs : store.Serves plan.location o) (hp : store.IsPrompt) (hpos : 0 < credit)
    (h : UnderWay o plan credit t v.2) (hrest : t.step store.logged v = none) :
    (t.collect store.logged before v).1.result =
        some (.ok (before.reverse.flatten ++ t.pending o)) ∨
      (∃ e, (t.collect store.logged before v).1.result = some (.error e)) ∧
        Blamed o plan.maxRetries (t.collect store.logged before v).2.2 := by
  fun_induction Transfer.collect store.logged before t v with
  | case1 before t v chunk t' hn rested ih =>
    have hnext := h.next_grant hn
    have hsettle := hnext.settle hs hp v.1
    have hpend := (hnext.sound.settle (hnext.plan_eq ▸ hs.logged) v).2.1
    have hall : before.reverse.flatten ++ t.pending o =
        (chunk :: before).reverse.flatten ++ rested.1.pending o := by
      rw [show rested.1.pending o = t'.pending o from hpend, pending_of_next hn]
      simp [Signal.bytes]
    rw [hall]
    exact ih hsettle (step_settle _ _ _)
  | case2 before t v t' hn =>
    left
    rw [h.sound.pending_of_next_complete hn, List.append_nil]
  | case3 before t v e t' hn =>
    right
    obtain ⟨rest, hc, -⟩ := next_eq_signal hn
    refine ⟨⟨e, rfl⟩, ?_⟩
    rw [← h.plan_eq]
    exact h.charged.blamed e (.inr (hc ▸ List.mem_cons_self))
  | case4 before t v t' hn location =>
    obtain ⟨hch, hended⟩ := next_eq_over hn h.steady.closed h.steady.cancelled
    obtain ⟨x, hx, -⟩ := h.steady.ended hended
    cases hch ▸ hx
  | case5 before t v t' hn hpause =>
    obtain ⟨left, hphase⟩ := h.steady.exists_pausing hpos (channel_eq_nil_of_next hn) hrest
    simp [pauseLeft, hphase] at hpause
  | case6 before t v t' hn left hpause woken rest ih =>
    have hwake := h.wake hs hp hpause v.1
    have hpend := (h.sound.wake (h.plan_eq ▸ hs.logged) hpause v).2.1
    rw [← show woken.1.pending o = t.pending o from hpend]
    exact ih hwake (step_settle _ _ _)

end UnderWay

/-! ### Unfolding -/

theorem settle_of_step {s' : σ} (h : t.step store s = some (t', s')) :
    settle store t s = settle store t' s' := by
  rw [settle.eq_def]
  split
  · rename_i hn
    cases hn.symm.trans h
  · rename_i hs
    cases hs.symm.trans h
    rfl

theorem settle_of_step_eq_none (h : t.step store s = none) : settle store t s = (t, s) := by
  rw [settle.eq_def]
  split
  · rfl
  · rename_i hs
    cases hs.symm.trans h

theorem collect_of_chunk {before : List (List UInt8)} {chunk : List UInt8}
    (h : t.next = (.signal (.chunk chunk), t')) :
    collect store before t s =
      collect store (chunk :: before) (settle store (t'.grant 1) s).1
        (settle store (t'.grant 1) s).2 := by
  rw [collect.eq_def]
  split <;> rename_i hn <;> cases hn.symm.trans h
  rfl

theorem collect_of_notYet {before : List (List UInt8)} {left : Duration}
    (h : t.next = (.notYet, t')) (hp : t.pauseLeft = some left) :
    collect store before t s =
      ({ (collect store before (t.wake store s).1 (t.wake store s).2).1 with
          span := ⟨left.nanos +
            (collect store before (t.wake store s).1 (t.wake store s).2).1.span.nanos⟩ },
        (collect store before (t.wake store s).1 (t.wake store s).2).2) := by
  rw [collect.eq_def]
  split <;> rename_i hn <;> cases hn.symm.trans h
  split
  · rename_i hp'
    cases hp'.symm.trans hp
  · rename_i hp'
    cases hp'.symm.trans hp
    rfl

/-! ### Logging -/

/-- A log changes nothing in a step. -/
theorem step_logged (store : Store σ) (t : Transfer) (s : σ) (log : List Exchange) :
    ∃ log', t.step store.logged (s, log) = (t.step store s).map fun r => (r.1, r.2, log') := by
  unfold step
  split
  · exact ⟨_, rfl⟩
  · refine ⟨log, ?_⟩
    rw [Option.map_map]
    rfl

/-- A log changes nothing in how a transfer comes to rest. -/
theorem settle_logged (store : Store σ) (t : Transfer) (s : σ) (log : List Exchange) :
    ∃ log', settle store.logged t (s, log) =
      ((settle store t s).1, (settle store t s).2, log') := by
  fun_induction settle store t s generalizing log with
  | case1 t s hs =>
    obtain ⟨log', hl⟩ := step_logged store t s log
    rw [hs] at hl
    exact ⟨log, settle_of_step_eq_none hl⟩
  | case2 t s t' s' hs ih =>
    obtain ⟨log', hl⟩ := step_logged store t s log
    rw [hs] at hl
    obtain ⟨log'', hl'⟩ := ih log'
    exact ⟨log'', (settle_of_step hl).trans hl'⟩

/-- A log changes nothing in what is collected. -/
theorem collect_logged (store : Store σ) (before : List (List UInt8)) (t : Transfer) (s : σ)
    (log : List Exchange) :
    ∃ log', collect store.logged before t (s, log) =
      ((collect store before t s).1, (collect store before t s).2, log') := by
  fun_induction collect store before t s generalizing log with
  | case1 before t s chunk t' hn rested ih =>
    obtain ⟨log₁, h₁⟩ := settle_logged store (t'.grant 1) s log
    obtain ⟨log₂, h₂⟩ := ih log₁
    refine ⟨log₂, ?_⟩
    rw [collect_of_chunk hn, h₁]
    exact h₂
  | case2 before t s t' hn
  | case3 before t s e t' hn
  | case4 before t s t' hn location =>
    refine ⟨log, ?_⟩
    rw [collect.eq_def]
    split <;> rename_i hn' <;> cases hn'.symm.trans hn
    rfl
  | case5 before t s t' hn hp =>
    refine ⟨log, ?_⟩
    rw [collect.eq_def]
    split <;> rename_i hn' <;> cases hn'.symm.trans hn
    split
    · rfl
    · rename_i hp'
      cases hp'.symm.trans hp
  | case6 before t s t' hn left hp woken rest ih =>
    obtain ⟨log₁, h₁⟩ := settle_logged store { t with phase := .opening } s log
    obtain ⟨log₂, h₂⟩ := ih log₁
    refine ⟨log₂, ?_⟩
    rw [collect_of_notYet hn hp, show t.wake store.logged (s, log) = _ from h₁]
    simp only [woken, rest, wake] at h₂ ⊢
    rw [h₂]

end Transfer

namespace Fetcher

/-- The channel of a download holds one signal at least. -/
theorem capacity_pos (location : Location) (settings : Settings.Download) :
    0 < (ofSettings location settings).plan.capacity := Nat.le_max_right _ _

/-- The capacity of the channel of a download is a word. -/
theorem capacity_lt (location : Location) (settings : Settings.Download) :
    (ofSettings location settings).plan.capacity < UInt64.size :=
  Nat.max_lt.2 ⟨settings.chunkBuffer.toNat_lt, by decide⟩

/-- The requests made to receive the whole of a download, with their answers. -/
def exchanges (store : Store σ) (f : Fetcher) (s : σ) : List Exchange :=
  (f.fetchAll store.logged (s, [])).2.2.2

theorem fetchAll_logged (f : Fetcher) (s : σ) :
    (f.fetchAll store.logged (s, [])).1 = (f.fetchAll store s).1 := by
  unfold fetchAll
  split
  · rfl
  · rename_i t f' hs
    obtain ⟨log, h⟩ := Transfer.settle_logged store
      (t.grant (.ofNat f'.plan.capacity)) s []
    obtain ⟨log', h'⟩ := Transfer.collect_logged store []
      (Transfer.settle store (t.grant (.ofNat f'.plan.capacity)) s).1
      (Transfer.settle store (t.grant (.ofNat f'.plan.capacity)) s).2 log
    simp only [h, h']

/-- What is received of the whole of a download is the object from the offset on. -/
theorem fetchAll_eq_ok {f : Fetcher} {bytes : List UInt8}
    (hs : store.Serves f.plan.location o) (hle : f.offset.toNat ≤ o.bytes.length)
    (hb : (f.fetchAll store s).1.result = some (.ok bytes)) :
    bytes = o.bytes.drop f.offset.toNat := by
  unfold fetchAll subscribe at hb
  split at hb
  · rename_i hsub
    split at hsub <;> cases hsub
    cases hb
  · rename_i hsub
    split at hsub <;> cases hsub
    have hstart : Transfer.Sound o ((Transfer.start f.plan f.offset f.etag).grant
        (.ofNat f.plan.capacity)) := { Transfer.Sound.start hle with }
    obtain ⟨hrest, hpend, hplan⟩ := hstart.settle hs s
    rw [Transfer.collect_eq_ok (hplan ▸ hs) hrest hb, hpend]
    rfl

/-- A transfer at its start, once it was granted as many chunks as its channel holds. -/
theorem underWay_start {plan : Transfer.Plan} {offset : UInt64} {etag : Option String}
    (hle : offset.toNat ≤ o.bytes.length) (hpos : 0 < plan.capacity)
    (hlt : plan.capacity < UInt64.size) :
    Transfer.UnderWay o plan plan.capacity
      ((Transfer.start plan offset etag).grant (.ofNat plan.capacity)) [] where
  plan_eq := rfl
  sound := { Transfer.Sound.start hle with }
  charged := { (Transfer.Charged.start : Transfer.Charged o [] (.start plan offset etag)) with }
  steady := by
    have hn : (UInt64.ofNat plan.capacity).toNat = plan.capacity := UInt64.toNat_ofNat_of_lt' hlt
    have hstart : Transfer.Steady (UInt64.ofNat plan.capacity).toNat
        ((Transfer.start plan offset etag).grant (.ofNat plan.capacity)) := .start hpos
    rwa [hn] at hstart

/-- With a prompt store a download comes to an end: with the object from the offset on, or with a
failure for which the log has a reason. -/
theorem fetchAll_prompt {f : Fetcher} (hsub : f.subscribed = false)
    (hs : store.Serves f.plan.location o) (hp : store.IsPrompt)
    (hle : f.offset.toNat ≤ o.bytes.length) (hpos : 0 < f.plan.capacity)
    (hlt : f.plan.capacity < UInt64.size) (s : σ) :
    (f.fetchAll store s).1.result = some (.ok (o.bytes.drop f.offset.toNat)) ∨
      (∃ e, (f.fetchAll store s).1.result = some (.error e)) ∧
        Transfer.Blamed o f.plan.maxRetries (f.exchanges store s) := by
  have hstart : Transfer.UnderWay o f.plan f.plan.capacity
      ((Transfer.start f.plan f.offset f.etag).grant (.ofNat f.plan.capacity)) [] :=
    underWay_start hle hpos hlt
  have hrest := hstart.settle hs hp s
  have hend := hrest.collect [] hs hp hpos (Transfer.step_settle _ _ _)
  rw [(hstart.sound.settle hs.logged (s, [])).2.1] at hend
  rw [← fetchAll_logged]
  simp only [exchanges, fetchAll, subscribe, hsub]
  exact hend

end Fetcher

end QueryResults.Download
