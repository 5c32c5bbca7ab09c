import QueryResults.Proofs.Store.Object
import QueryResults.Proofs.Transfer.Transition

/-!
# Transfers of an unchanging object

While a store serves an object, a transfer of it is *sound*: the offset reached lies within the
object, the recorded end is the object's end, the tag is the object's once the store has answered,
what is left of the body holds the bytes from the offset on, no chunk handed over is empty, and
completion is signalled only at the end of the object and as the last signal.

What the consumer of a sound transfer will still receive is known: the bytes in the channel and the
bytes of the object from the offset on (`Transfer.pending`). No step of the task changes it, and
receiving a chunk takes the chunk off its front. So nothing is lost, repeated or reordered, wherever
a body breaks off.

## Main definitions

* `Signal.bytes`, `Transfer.pending`.
* `Transfer.Sound`: the invariant.

## Main results

* `Transfer.Sound.transition`, `Transfer.Sound.pending_transition`: what a step keeps.
* `Transfer.Sound.next`, `Transfer.Sound.pending_of_next`: what receiving a signal keeps.
-/

namespace QueryResults.Download

open Store

/-- The bytes of a signal. -/
def Signal.bytes : Signal → List UInt8
  | chunk b => b
  | complete | failed _ => []

/-- A last signal holds no bytes. -/
theorem Signal.bytes_eq_nil {x : Signal} (h : x.isTerminal = true) : x.bytes = [] := by
  cases x with
  | chunk b => cases h
  | complete | failed e => rfl

namespace Transfer

/-- A word that a number is added to without leaving the range of words. -/
theorem toNat_add_ofNat {a : UInt64} {n : Nat} (h : a.toNat + n < UInt64.size) :
    (a + .ofNat n).toNat = a.toNat + n := by
  rw [UInt64.toNat_add, UInt64.toNat_ofNat', Nat.add_mod_mod]
  exact Nat.mod_eq_of_lt h

variable {σ : Type} {store : Store σ} {t t' : Transfer} {s s' : σ} {o : Object}

/-- The offset of the next request is the offset reached. -/
theorem offset_nextRequest (t : Transfer) :
    t.nextRequest.offset = t.progress.delivered.toNat := by
  unfold nextRequest Request.offset
  by_cases h : t.progress.delivered = 0 <;> simp [h]

/-! ### Small facts about steps -/

/-- The plan of a transfer never changes. -/
theorem plan_transition (ht : Transition store t s t' s') : t'.plan = t.plan := by
  cases ht with
  | fail hc hp => exact (concluded_refused t _).plan_eq
  | reject hc hp ha => exact (concluded_refused t _).plan_eq
  | finish hc hp hd hn => exact (concluded_bodyEnded t.gathered).plan_eq
  | breakOff hc hp hd hn => exact (concluded_retry t.gathered _).plan_eq
  | _ => rfl

/-- Whether a task is over shows in its phase alone. -/
theorem isEnded_of_phase {ph : Phase} (hp : t.phase = ph)
    (h : ({ t with phase := ph } : Transfer).isEnded = false) : t.isEnded = false := by
  subst hp
  exact h

/-- A task that stands before the end has not ended. -/
theorem phase_ne_ended {ph : Phase} (hp : t.phase = ph)
    (h : ({ t with phase := ph } : Transfer).isEnded = false) : t.phase ≠ .ended :=
  fun he => Bool.false_ne_true ((isEnded_of_phase hp h).symm.trans (isEnded_iff.2 (.inl he)))

/-- An accepted response sets the first tag, the first end and nothing else, and carries no other
tag than the one expected. -/
theorem accept_eq_ok {p p' : Progress} {r : Response} (h : p.accept r = .ok p') :
    p' =
        { p with
          etag := p.etag <|> r.etag
          finish := p.finish <|> r.length.map (p.delivered + ·)
          responded := true } ∧
      ∀ expected actual, p.etag = some expected → r.etag = some actual → expected = actual := by
  unfold Progress.accept at h
  split at h
  · rename_i expected actual hp hr
    split at h
    · rename_i he
      cases h
      refine ⟨rfl, fun a b ha hb => ?_⟩
      rw [← Option.some.inj (hp.symm.trans ha), ← Option.some.inj (hr.symm.trans hb), he]
    · cases h
  · rename_i hno
    cases h
    exact ⟨rfl, fun a b ha hb => absurd hb (hno a b ha)⟩

/-- A response is rejected because of another tag than the one expected. -/
theorem accept_eq_error {p : Progress} {r : Response} {e : Failure} (h : p.accept r = .error e) :
    e.kind = .preconditionFailed ∧
      ∃ expected actual, p.etag = some expected ∧ r.etag = some actual ∧ expected ≠ actual := by
  unfold Progress.accept at h
  split at h
  · rename_i expected actual hp hr
    split at h
    · cases h
    · rename_i he
      cases h
      exact ⟨rfl, expected, actual, hp, hr, he⟩
  · cases h

/-! ### The invariant -/

/-- What a phase has to do with an object, given the progress made. -/
def Phase.Sound (o : Object) (p : Progress) : Phase → Prop
  | .opening | .pausing _ | .ended => True
  | .awaiting answer => answer.IsFaithful o p.delivered.toNat
  | .reading body => p.responded = true ∧ Delivers (o.bytes.drop p.delivered.toNat) body
  | .offering b body =>
    p.responded = true ∧ Delivers (o.bytes.drop p.delivered.toNat) (.chunk b :: body) ∧ b ≠ []
  | .closing last =>
    last.isTerminal = true ∧ (last = .complete → p.delivered.toNat = o.bytes.length)
  | .lost => False

/-- A transfer of an unchanging object, at any moment. -/
structure Sound (o : Object) (t : Transfer) : Prop where
  delivered_le : t.progress.delivered.toNat ≤ o.bytes.length
  finish : ∀ f, t.progress.finish = some f → f.toNat = o.bytes.length
  responded : t.progress.responded = true →
    t.progress.etag = some o.etag ∧ t.progress.finish.isSome = true
  phase : t.phase.Sound o t.progress
  terminal : ∀ x ∈ t.channel, x.isTerminal = true →
    t.phase = .ended ∧ (x = .complete → t.progress.delivered.toNat = o.bytes.length)
  last : t.channel.Pairwise fun x _ => x.isTerminal = false
  chunks : .chunk [] ∉ t.channel

namespace Sound

theorem start {plan : Plan} {offset : UInt64} {etag : Option String}
    (h : offset.toNat ≤ o.bytes.length) : Sound o (start plan offset etag) where
  delivered_le := h
  finish _ hf := nomatch hf
  responded hr := nomatch hr
  phase := trivial
  terminal _ hx := nomatch hx
  last := .nil
  chunks := nofun

/-- As long as the task has not ended, no last signal is in the channel. -/
theorem not_terminal (h : Sound o t) (hp : t.phase ≠ .ended) {x : Signal} (hx : x ∈ t.channel) :
    x.isTerminal = false := by
  rw [← Bool.not_eq_true]
  exact fun hx' => hp (h.terminal x hx hx').1

/-- The task of a sound transfer does not break down. -/
theorem phase_ne_lost (h : Sound o t) : t.phase ≠ .lost := by
  intro hp
  have hphase := h.phase
  rwa [hp] at hphase

/-- What a sound task is closing with is a last signal. -/
theorem isTerminal_of_closing (h : Sound o t) (last : Signal) (hp : t.phase = .closing last) :
    last.isTerminal = true := by
  have hphase := h.phase
  rw [hp] at hphase
  exact hphase.1

/-- A task that has not ended goes on with another phase. -/
theorem withPhase (h : Sound o t) (hp : t.phase ≠ .ended) {ph : Phase}
    (hph : ph.Sound o t.progress) : Sound o { t with phase := ph } where
  delivered_le := h.delivered_le
  finish := h.finish
  responded := h.responded
  phase := hph
  terminal x hx hx' := absurd (h.terminal x hx hx').1 hp
  last := h.last
  chunks := h.chunks

theorem gathered (h : Sound o t) : Sound o t.gathered where
  delivered_le := h.delivered_le
  finish := h.finish
  responded := h.responded
  phase := h.phase
  terminal := h.terminal
  last := h.last
  chunks := h.chunks

/-- A last signal is put behind the signals of a task that has not ended. -/
theorem retry (h : Sound o t) (hp : t.phase ≠ .ended) (e : Failure) : Sound o (t.retry e) := by
  unfold Transfer.retry
  split
  · exact h.withPhase hp ⟨rfl, fun hx => by cases hx⟩
  · exact
      { delivered_le := h.delivered_le
        finish := h.finish
        responded := h.responded
        phase := trivial
        terminal := fun x hx hx' => absurd (h.terminal x hx hx').1 hp
        last := h.last
        chunks := h.chunks }

theorem refused (h : Sound o t) (hp : t.phase ≠ .ended) (e : Failure) :
    Sound o (t.refused e) := by
  unfold Transfer.refused
  split
  · exact h.retry hp _
  · exact h.withPhase hp ⟨rfl, fun hx => by cases hx⟩

/-- The recorded end is the end of the object. -/
theorem lt_of_not_isComplete (h : Sound o t) (hr : t.progress.responded = true)
    (hd : t.progress.isComplete = false) :
    ∃ f, t.progress.finish = some f ∧ f.toNat = o.bytes.length ∧
      t.progress.delivered.toNat < o.bytes.length := by
  obtain ⟨f, hf⟩ := Option.isSome_iff_exists.1 (h.responded hr).2
  refine ⟨f, hf, h.finish f hf, ?_⟩
  simp only [Progress.isComplete, hf, decide_eq_false_iff_not, UInt64.not_le] at hd
  rw [← h.finish f hf]
  exact UInt64.lt_iff_toNat_lt.1 hd

theorem eq_of_isComplete (h : Sound o t) (hd : t.progress.isComplete = true) :
    t.progress.delivered.toNat = o.bytes.length := by
  unfold Progress.isComplete at hd
  split at hd
  · rename_i f hf
    have hle := UInt64.le_iff_toNat_le.1 (of_decide_eq_true hd)
    rw [h.finish f hf] at hle
    exact Nat.le_antisymm h.delivered_le hle
  · cases hd

/-- A body that ends before the end of the object counts as a failure. -/
theorem bodyEnded (h : Sound o t) (hp : t.phase ≠ .ended) (hr : t.progress.responded = true)
    (hd : t.progress.isComplete = false) : Sound o t.bodyEnded := by
  obtain ⟨f, hf, heq, hlt⟩ := h.lt_of_not_isComplete hr hd
  rw [← heq, ← UInt64.lt_iff_toNat_lt] at hlt
  simp only [Transfer.bodyEnded, hf, hlt, ↓reduceIte]
  exact h.retry hp _

/-- The end that a response declares is that of the object. -/
theorem fits (h : Sound o t) {r : Response} (hp : t.phase = .awaiting (.response r)) :
    t.progress.fits r = true := by
  have hphase := h.phase
  rw [hp] at hphase
  have hle := h.delivered_le
  have hlt := o.size_lt
  simp only [Progress.fits, hphase.2.1, Option.all_some, Bool.or_eq_true, decide_eq_true_eq]
  rw [UInt64.toNat_ofNat_of_lt' (by omega)]
  exact .inr (by omega)

/-- A chunk that is offered lies within the object. -/
theorem reaches (h : Sound o t) {bytes : List UInt8} {body : List Item}
    (hp : t.phase = .offering bytes body) : t.progress.reaches bytes = true := by
  have hphase := h.phase
  rw [hp] at hphase
  have hle := hphase.2.1.le_of_drop_chunk h.delivered_le
  exact decide_eq_true (Nat.lt_of_le_of_lt hle o.size_lt)

theorem accept (h : Sound o t) {r : Response} {p : Progress}
    (hp : t.phase = .awaiting (.response r)) (ha : t.progress.accept r = .ok p) :
    Sound o { t with progress := p, phase := .reading r.body } := by
  obtain ⟨rfl, htag⟩ := accept_eq_ok ha
  have hphase := h.phase
  rw [hp] at hphase
  obtain ⟨hetag, hlength, hbody⟩ := hphase
  have hle := h.delivered_le
  exact
    { delivered_le := hle
      finish := by
        intro f hf
        cases hfin : t.progress.finish with
        | some g =>
          simp only [hfin, Option.orElse_eq_orElse, Option.orElse_some, Option.some.injEq] at hf
          exact hf ▸ h.finish g hfin
        | none =>
          simp only [hfin, hlength, Option.orElse_eq_orElse, Option.orElse_none, Option.map_some,
            Option.some.injEq] at hf
          rw [← hf, toNat_add_ofNat] <;> have := o.size_lt <;> omega
      responded := by
        intro _
        refine ⟨?_, by cases t.progress.finish <;> simp [hlength]⟩
        cases he : t.progress.etag with
        | none => simpa [he] using hetag
        | some a => simp [htag a o.etag he hetag]
      phase := ⟨rfl, hbody⟩
      terminal := fun x hx hx' => by cases hp.symm.trans (h.terminal x hx hx').1
      last := h.last
      chunks := h.chunks }

theorem hand (h : Sound o t) {bytes : List UInt8} {body : List Item}
    (hp : t.phase = .offering bytes body) :
    Sound o
      { t with
        channel := t.channel ++ [.chunk bytes]
        progress := t.progress.afterChunk bytes
        phase := .reading body } := by
  have hphase := h.phase
  rw [hp] at hphase
  obtain ⟨hr, hb, hne⟩ := hphase
  have hle := hb.le_of_drop_chunk h.delivered_le
  have hto : (t.progress.afterChunk bytes).delivered.toNat =
      t.progress.delivered.toNat + bytes.length :=
    toNat_add_ofNat (Nat.lt_of_le_of_lt hle o.size_lt)
  have hno {x : Signal} (hx : x ∈ t.channel) : x.isTerminal = false :=
    h.not_terminal (phase_ne_ended hp rfl) hx
  exact
    { delivered_le := hto ▸ hle
      finish := h.finish
      responded := h.responded
      phase := ⟨hr, hto ▸ hb.drop_chunk.2⟩
      terminal := by
        intro x hx hx'
        rcases List.mem_append.1 hx with hx | hx
        · cases (hno hx).symm.trans hx'
        · cases List.mem_singleton.1 hx ▸ hx'
      last := List.pairwise_append.2
        ⟨h.last, List.pairwise_singleton _ _, fun x hx _ _ => hno hx⟩
      chunks := by
        intro hx
        rcases List.mem_append.1 hx with hx | hx
        · exact h.chunks hx
        · cases List.mem_singleton.1 hx
          exact hne rfl }

theorem close (h : Sound o t) {last : Signal} (hp : t.phase = .closing last) :
    Sound o { t with channel := t.channel ++ [last], phase := .ended } := by
  have hphase := h.phase
  rw [hp] at hphase
  have hno {x : Signal} (hx : x ∈ t.channel) : x.isTerminal = false :=
    h.not_terminal (phase_ne_ended hp rfl) hx
  exact
    { delivered_le := h.delivered_le
      finish := h.finish
      responded := h.responded
      phase := trivial
      terminal := by
        intro x hx hx'
        rcases List.mem_append.1 hx with hx | hx
        · cases (hno hx).symm.trans hx'
        · exact ⟨rfl, List.mem_singleton.1 hx ▸ hphase.2⟩
      last := List.pairwise_append.2
        ⟨h.last, List.pairwise_singleton _ _, fun x hx _ _ => hno hx⟩
      chunks := by
        intro hx
        rcases List.mem_append.1 hx with hx | hx
        · exact h.chunks hx
        · cases List.mem_singleton.1 hx ▸ hphase.1 }

/-- A step of the task keeps a transfer sound. -/
theorem transition (hs : store.Serves t.plan.location o) (h : Sound o t)
    (ht : Transition store t s t' s') : Sound o t' := by
  cases ht with
  | stop hc hp => exact h.withPhase (phase_ne_ended rfl hp) trivial
  | ask hc hp =>
    refine h.withPhase (phase_ne_ended hp rfl) ?_
    have := hs t.nextRequest s rfl (offset_nextRequest t ▸ h.delivered_le)
    rwa [offset_nextRequest] at this
  | fail hc hp => exact h.refused (phase_ne_ended hp rfl) _
  | accept hc hp ha hf => exact h.accept hp ha
  | overflow hc hp ha hf => cases (h.fits hp).symm.trans hf
  | reject hc hp ha => exact h.refused (phase_ne_ended hp rfl) _
  | reach hc hp hd =>
    exact h.withPhase (phase_ne_ended hp rfl) ⟨rfl, fun _ => h.eq_of_isComplete hd⟩
  | finish hc hp hd hn =>
    have hphase := h.phase
    rw [hp] at hphase
    exact h.gathered.bodyEnded (phase_ne_ended hp rfl) hphase.1 hd
  | breakOff hc hp hd hn => exact h.gathered.retry (phase_ne_ended hp rfl) _
  | skip hc hp hd hn =>
    have hphase := h.phase
    rw [hp] at hphase
    obtain ⟨rest, hrest, hb⟩ := hphase.2.of_chunk
    rw [List.nil_append] at hrest
    exact h.gathered.withPhase (phase_ne_ended hp rfl) ⟨hphase.1, hrest ▸ hb⟩
  | take hc hp hd hn =>
    have hphase := h.phase
    rw [hp] at hphase
    exact h.gathered.withPhase (phase_ne_ended hp rfl) ⟨hphase.1, hphase.2, List.cons_ne_nil _ _⟩
  | hand hc hp hr hf => exact h.hand hp
  | overrun hc hp hr hf => cases (h.reaches hp).symm.trans hf
  | wake hc hp hl => exact h.withPhase (phase_ne_ended hp rfl) trivial
  | close hc hp hr => exact h.close hp

end Sound

/-! ### What the consumer will still receive -/

/-- The bytes of an object that the consumer of a sound transfer has not received yet. -/
def pending (o : Object) (t : Transfer) : List UInt8 :=
  t.channel.flatMap Signal.bytes ++ o.bytes.drop t.progress.delivered.toNat

theorem pending_start (o : Object) (plan : Plan) (offset : UInt64) (etag : Option String) :
    (start plan offset etag).pending o = o.bytes.drop offset.toNat := rfl

theorem pending_concluded (h : t.Concluded t') : t'.pending o = t.pending o := by
  unfold pending
  rw [h.channel_eq, h.delivered_eq]

/-- A step of the task changes nothing in what the consumer will receive. -/
theorem Sound.pending_transition (h : Sound o t) (ht : Transition store t s t' s') :
    t'.pending o = t.pending o := by
  have hphase := h.phase
  cases ht with
  | overflow hc hp ha hf => cases (h.fits hp).symm.trans hf
  | overrun hc hp hr hf => cases (h.reaches hp).symm.trans hf
  | hand hc hp hr hf =>
    rw [hp] at hphase
    have hle := hphase.2.1.le_of_drop_chunk h.delivered_le
    simp only [pending, List.flatMap_append, List.flatMap_singleton, Signal.bytes,
      Progress.afterChunk, List.append_assoc]
    rw [toNat_add_ofNat (Nat.lt_of_le_of_lt hle o.size_lt), ← hphase.2.1.drop_chunk.1]
  | close hc hp hr =>
    rw [hp] at hphase
    simp [pending, Signal.bytes_eq_nil hphase.1]
  | accept hc hp ha hf =>
    obtain ⟨rfl, -⟩ := accept_eq_ok ha
    rfl
  | fail hc hp => exact pending_concluded (concluded_refused t _)
  | reject hc hp ha => exact pending_concluded (concluded_refused t _)
  | finish hc hp hd hn => exact (pending_concluded (concluded_bodyEnded t.gathered)).trans rfl
  | breakOff hc hp hd hn => exact (pending_concluded (concluded_retry t.gathered _)).trans rfl
  | stop hc hp => rfl
  | ask hc hp => rfl
  | reach hc hp hd => rfl
  | skip hc hp hd hn => rfl
  | take hc hp hd hn => rfl
  | wake hc hp hl => rfl

/-! ### Receiving -/

/-- A signal is received from the front of the channel. -/
theorem next_eq_signal {x : Signal} (hn : t.next = (.signal x, t')) :
    ∃ rest, t.channel = x :: rest ∧ t' = { t with channel := rest, closed := x.isTerminal } := by
  unfold next at hn
  split at hn
  · cases hn
  · split at hn
    · rename_i x' rest hc
      cases hn
      exact ⟨rest, hc, rfl⟩
    · split at hn <;> cases hn

/-- Where no signal is received, nothing but the note that the last one was changes. -/
theorem next_eq_of_not_signal {x : Receipt} (hn : t.next = (x, t'))
    (hx : ∀ y, x ≠ .signal y) : ∃ closed, t' = { t with closed } := by
  unfold next at hn
  split at hn
  · cases hn
    exact ⟨t.closed, rfl⟩
  · split at hn
    · cases hn
      exact absurd rfl (hx _)
    · split at hn
      · cases hn
        exact ⟨true, rfl⟩
      · cases hn
        exact ⟨t.closed, rfl⟩

/-- No signal is there yet only if the channel is empty. -/
theorem channel_eq_nil_of_next (hn : t.next = (.notYet, t')) : t.channel = [] := by
  unfold next at hn
  split at hn
  · cases hn
  · split at hn
    · cases hn
    · assumption

/-- No signal will come any more only if the last one was received, the transfer is cancelled, or
the task is over and the channel is empty. -/
theorem next_eq_over (hn : t.next = (.over, t')) (hcl : t.closed = false)
    (hc : t.cancelled = false) : t.channel = [] ∧ t.isEnded = true := by
  unfold next at hn
  rw [hcl, hc, Bool.or_self, if_neg Bool.false_ne_true] at hn
  split at hn
  · cases hn
  · rename_i hch
    split at hn
    · rename_i hend
      exact ⟨hch, hend⟩
    · cases hn

/-- Receiving keeps a transfer sound. -/
theorem Sound.next {x : Receipt} (h : Sound o t) (hn : t.next = (x, t')) : Sound o t' := by
  cases x with
  | signal x =>
    obtain ⟨rest, hc, rfl⟩ := next_eq_signal hn
    have hlast := h.last
    rw [hc] at hlast
    exact
      { h with
        terminal := fun y hy => h.terminal y (hc ▸ List.mem_cons_of_mem _ hy)
        last := (List.pairwise_cons.1 hlast).2
        chunks := fun hx => h.chunks (hc ▸ List.mem_cons_of_mem _ hx) }
  | _ =>
    obtain ⟨closed, rfl⟩ := next_eq_of_not_signal hn nofun
    exact { h with }

/-- A received signal's bytes come off the front of what is pending. -/
theorem pending_of_next {x : Signal} (hn : t.next = (.signal x, t')) :
    t.pending o = x.bytes ++ t'.pending o := by
  obtain ⟨rest, hc, rfl⟩ := next_eq_signal hn
  simp [pending, hc]

/-- Nothing is pending when completion is received. -/
theorem Sound.pending_of_next_complete (h : Sound o t) (hn : t.next = (.signal .complete, t')) :
    t.pending o = [] := by
  obtain ⟨rest, hc, rfl⟩ := next_eq_signal hn
  have hmem : Signal.complete ∈ t.channel := hc ▸ List.mem_cons_self
  have hend := (h.terminal _ hmem rfl).2 rfl
  have hrest : rest = [] := by
    refine List.eq_nil_iff_forall_not_mem.2 fun x hx => ?_
    have hlast := h.last
    rw [hc] at hlast
    cases (List.pairwise_cons.1 hlast).1 x hx
  simp [pending, hc, hrest, Signal.bytes, hend]

end Transfer

end QueryResults.Download
