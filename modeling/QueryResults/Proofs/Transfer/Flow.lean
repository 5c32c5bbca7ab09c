import QueryResults.Proofs.Store.Healthy
import QueryResults.Proofs.Transfer.Demand

/-!
# Transfers from a store in good health

A transfer from a store in good health never fails: every body holds all that is missing, so it
never ends too early, and the tag never changes. Such a transfer is never resumed, and with credit
left it always has a chunk or the completion to hand over once it has come to rest.

## Main definitions

* `Transfer.Healthy`: a transfer that has met no failure and will meet none.
* `Transfer.Flowing`: a healthy transfer that is sound and has credit.

## Main results

* `Transfer.Healthy.transition`: what a step keeps.
* `Transfer.Flowing.settle`, `Transfer.Flowing.next`: at rest with credit left there is a signal.
-/

namespace QueryResults.Download.Transfer

open Store

variable {σ : Type} {store : Store σ} {t t' : Transfer} {s s' : σ} {o : Object} {credit : Nat}

/-- What is to come in a phase holds exactly the bytes that are missing. -/
def Phase.Healthy (o : Object) (p : Progress) : Phase → Prop
  | .opening | .ended => True
  | .awaiting answer =>
    ∃ r, answer = .response r ∧ Whole (o.bytes.drop p.delivered.toNat) r.body
  | .reading body => Whole (o.bytes.drop p.delivered.toNat) body
  | .offering b body => Whole (o.bytes.drop p.delivered.toNat) (.chunk b :: body)
  | .pausing _ | .lost => False
  | .closing last => last = .complete

/-- A transfer that has met no failure and will meet none. -/
structure Healthy (o : Object) (t : Transfer) : Prop where
  etag : ∀ tag, t.progress.etag = some tag → tag = o.etag
  phase : t.phase.Healthy o t.progress
  channel : ∀ e, .failed e ∉ t.channel

namespace Healthy

theorem start {plan : Plan} {offset : UInt64} {etag : Option String}
    (h : ∀ tag, etag = some tag → tag = o.etag) : Healthy o (start plan offset etag) where
  etag := h
  phase := trivial
  channel := nofun

theorem withPhase (h : Healthy o t) {ph : Phase} (hph : ph.Healthy o t.progress) :
    Healthy o { t with phase := ph } where
  etag := h.etag
  phase := hph
  channel := h.channel

theorem gathered (h : Healthy o t) {ph : Phase} (hph : ph.Healthy o t.progress) :
    Healthy o { t.gathered with phase := ph } where
  etag := h.etag
  phase := hph
  channel := h.channel

/-- The tag that is accepted is the tag of the object. -/
theorem accept (h : Healthy o t) {r : Response} {p : Progress} (hetag : r.etag = some o.etag)
    (hbody : Whole (o.bytes.drop t.progress.delivered.toNat) r.body)
    (ha : t.progress.accept r = .ok p) :
    Healthy o { t with progress := p, phase := .reading r.body } := by
  obtain ⟨rfl, -⟩ := accept_eq_ok ha
  refine ⟨fun tag htag => ?_, hbody, h.channel⟩
  cases he : t.progress.etag with
  | none => simpa [he, hetag, eq_comm] using htag
  | some tag' =>
    obtain rfl : tag' = tag := by simpa [he] using htag
    exact h.etag _ he

/-- Handing over a signal that is no failure. -/
theorem hand (h : Healthy o t) {x : Signal} (hx : ∀ e, x ≠ .failed e) {p : Progress} {ph : Phase}
    (hp : p.etag = t.progress.etag) (hph : ph.Healthy o p) :
    Healthy o { t with channel := t.channel ++ [x], progress := p, phase := ph } where
  etag tag htag := h.etag tag (hp ▸ htag)
  phase := hph
  channel e he := by
    rcases List.mem_append.1 he with he | he
    · exact h.channel e he
    · exact hx e (List.mem_singleton.1 he).symm

/-- A step of the task keeps a transfer from a store in good health healthy. -/
theorem transition (hs : store.Gives t.plan.location o) (hsound : Sound o t) (h : Healthy o t)
    (ht : Transition store t s t' s') : Healthy o t' := by
  have hphase := h.phase
  have hsphase := hsound.phase
  cases ht with
  | stop hc hp => exact h.withPhase trivial
  | ask hc hp =>
    refine h.withPhase ?_
    have := hs.whole t.nextRequest s rfl (offset_nextRequest t ▸ hsound.delivered_le) h.etag
    rwa [offset_nextRequest] at this
  | fail hc hp =>
    rw [hp] at hphase
    obtain ⟨r, hr, -⟩ := hphase
    cases hr
  | overflow hc hp ha hf => cases (hsound.fits hp).symm.trans hf
  | accept hc hp ha hf =>
    rw [hp] at hphase hsphase
    obtain ⟨r, hr, hbody⟩ := hphase
    cases hr
    exact h.accept hsphase.1 hbody ha
  | reject hc hp ha =>
    rw [hp] at hsphase
    obtain ⟨-, expected, actual, he, hr, hne⟩ := accept_eq_error ha
    rw [hsphase.1, Option.some.injEq] at hr
    exact absurd ((h.etag expected he).trans hr) hne
  | reach hc hp hd => exact h.withPhase rfl
  | finish hc hp hd hn =>
    rw [hp] at hphase hsphase
    obtain ⟨-, -, -, hlt⟩ := hsound.lt_of_not_isComplete hsphase.1 hd
    exact absurd (List.drop_eq_nil_iff.1 (Whole.eq_nil hphase)) (Nat.not_le_of_lt hlt)
  | breakOff hc hp hd hn =>
    rw [hp] at hphase
    exact absurd hphase Whole.not_failure
  | skip hc hp hd hn =>
    rw [hp] at hphase
    exact h.gathered (Whole.drop_chunk hphase)
  | take hc hp hd hn =>
    rw [hp] at hphase
    exact h.gathered hphase
  | overrun hc hp hr hf => cases (hsound.reaches hp).symm.trans hf
  | hand hc hp hr hf =>
    rw [hp] at hphase hsphase
    have hle := hsphase.2.1.le_of_drop_chunk hsound.delivered_le
    have hto := toNat_add_ofNat (Nat.lt_of_le_of_lt hle o.size_lt)
    refine h.hand ?_ rfl ?_
    · exact nofun
    · exact (congrArg (fun n => Whole (o.bytes.drop n) _) hto).mpr (Whole.drop_chunk hphase)
  | wake hc hp hl => exact h.withPhase trivial
  | close hc hp hr =>
    rename_i last
    rw [hp] at hphase
    obtain rfl : last = .complete := hphase
    refine h.hand ?_ rfl trivial
    exact nofun

end Healthy

/-- A transfer from a store in good health that has credit. -/
structure Flowing (o : Object) (credit : Nat) (t : Transfer) : Prop where
  sound : Sound o t
  healthy : Healthy o t
  steady : Steady credit t

namespace Flowing

theorem transition (hs : store.Gives t.plan.location o) (h : Flowing o credit t)
    (ht : Transition store t s t' s') : Flowing o credit t' where
  sound := h.sound.transition hs.serves ht
  healthy := h.healthy.transition hs h.sound ht
  steady := by
    refine h.steady.transition (h.sound.transition hs.serves ht).phase_ne_lost
      h.sound.isTerminal_of_closing (fun _ => ?_) ht
    obtain ⟨r, hr, hbody⟩ :=
      hs.whole t.nextRequest s rfl (offset_nextRequest t ▸ h.sound.delivered_le) h.healthy.etag
    rw [hr]
    exact hbody.ne_stall

theorem settle (hs : store.Gives t.plan.location o) (h : Flowing o credit t) (s : σ) :
    Flowing o credit (settle store t s).1 := by
  refine (settle_induction
    (P := fun u _ => Flowing o credit u ∧ u.plan = t.plan) ?_ ⟨h, rfl⟩).1
  rintro u v u' v' ⟨hu, hplan⟩ ht
  exact ⟨hu.transition (hplan ▸ hs) ht, (plan_transition ht).trans hplan⟩

/-- At rest with credit left there is a signal, and it is no failure. -/
theorem next (h : Flowing o credit t) (hpos : 0 < credit) (hrest : t.step store s = none) :
    ∃ x t', t.next = (.signal x, t') ∧ ∀ e, x ≠ .failed e := by
  unfold Transfer.next
  rw [h.steady.closed, h.steady.cancelled]
  cases hch : t.channel with
  | nil =>
    obtain ⟨left, hp⟩ := h.steady.exists_pausing hpos hch hrest
    have hphase := h.healthy.phase
    rw [hp] at hphase
    exact hphase.elim
  | cons x rest =>
    refine ⟨x, _, rfl, ?_⟩
    rintro e rfl
    exact h.healthy.channel e (hch ▸ List.mem_cons_self)

theorem grant (h : Flowing o credit t) {n : UInt64} (hlt : credit + n.toNat < UInt64.size) :
    Flowing o (credit + n.toNat) (t.grant n) where
  sound := { h.sound with }
  healthy := { h.healthy with }
  steady := h.steady.grant hlt

/-- Receiving a chunk uses up credit for one. -/
theorem of_next (h : Flowing o credit t) {chunk : List UInt8}
    (hn : t.next = (.signal (.chunk chunk), t')) : 0 < credit ∧ Flowing o (credit - 1) t' := by
  obtain ⟨hpos, hsteady⟩ := h.steady.next hn
  refine ⟨hpos, h.sound.next hn, ?_, hsteady⟩
  obtain ⟨rest, hc, rfl⟩ := next_eq_signal hn
  exact
    { etag := h.healthy.etag
      phase := h.healthy.phase
      channel := fun e he => h.healthy.channel e (hc ▸ List.mem_cons_of_mem _ he) }

theorem start {plan : Plan} {offset : UInt64} {etag : Option String} {n : UInt64}
    (hle : offset.toNat ≤ o.bytes.length) (htag : ∀ tag, etag = some tag → tag = o.etag)
    (hpos : 0 < plan.capacity) : Flowing o n.toNat ((start plan offset etag).grant n) where
  sound := { Sound.start hle with }
  healthy := { Healthy.start htag with }
  steady := .start hpos

end Flowing

/-- Coming to rest keeps what every request keeps. -/
theorem keeps_settle {P : σ → Prop} (hk : store.Keeps P) (t : Transfer) (h : P s) :
    P (settle store t s).2 := by
  refine settle_induction (P := fun _ v => P v) ?_ h
  intro u v u' v' hv ht
  cases ht with
  | ask => exact hk.get _ _ hv
  | _ => exact hv

end QueryResults.Download.Transfer
