import QueryResults.Proofs.Transfer.Delivery

/-!
# Where a task breaks down

The offsets of a transfer are words. A task breaks down where an offset is too large for a word: the
end that a response declares, or the offset behind a chunk. Whatever the store answers, the offset
reached lies behind the bytes handed over as long as the task has not broken down, and a task that
has broken down shows by its events where an offset was too large. A task does not break down as
long as none of its exchanges overruns.

## Main definitions

* `Transfer.Overruns`: whether an offset in a list of events is too large for a word.
* `Phase.Within`: a phase in which no offset to come is too large for a word.
* `Course.Counted`: the offsets of a course.

## Main results

* `Transfer.lost_of_transition`: a step by which a task breaks down.
* `Transfer.within_transition`: a step of a task whose exchanges do not overrun.
* `Course.Counted.act`: every act keeps the offsets.
-/

namespace QueryResults.Download.Transfer

open Store

variable {σ : Type} {store : Store σ} {t t' : Transfer} {s s' : σ} {c : Course σ} {offset : Nat}

/-- Whether an offset in a list of events is too large for a word: the one behind the bytes handed
over, or the end that a response declares. -/
def Overruns (offset : Nat) (events : List Event) : Prop :=
  UInt64.size ≤ offset + (handedBytes events).length ∨
    ∃ q r n, .asked ⟨q, .response r⟩ ∈ events ∧ r.length = some n ∧
      UInt64.size ≤ q.offset + n.toNat

theorem Overruns.append {events : List Event} (h : Overruns offset events) (more : List Event) :
    Overruns offset (events ++ more) := by
  rcases h with h | ⟨q, r, n, hx, hn, hle⟩
  · refine .inl (Nat.le_trans h ?_)
    simp
  · exact .inr ⟨q, r, n, List.mem_append_left _ hx, hn, hle⟩

/-! ### Steps of the task -/

/-- An end that does not fit in a word is declared. -/
theorem exists_length_of_fits {p : Progress} {r : Response} (h : p.fits r = false) :
    ∃ n, r.length = some n ∧ UInt64.size ≤ p.delivered.toNat + n.toNat := by
  simp only [Progress.fits, Bool.or_eq_false_iff] at h
  cases hn : r.length with
  | none => simp [hn] at h
  | some n => exact ⟨n, rfl, by simpa [hn] using h.2⟩

/-- A task breaks down at a declared end or behind a chunk that is handed over. -/
theorem lost_of_transition (ht : Transition store t s t' s') (hp' : t'.phase = .lost) :
    (∃ r n, t.phase = .awaiting (.response r) ∧ r.length = some n ∧
        UInt64.size ≤ t.progress.delivered.toNat + n.toNat ∧ t'.channel = t.channel) ∨
      ∃ b body, t.phase = .offering b body ∧ t'.channel = t.channel ++ [.chunk b] ∧
        UInt64.size ≤ t.progress.delivered.toNat + b.length := by
  have concluded {u : Transfer} (h : u.Concluded t') : False := by
    rcases h.phase_eq with ⟨last, hl, -⟩ | ⟨left, hl⟩ <;> cases hl.symm.trans hp'
  cases ht with
  | overflow hc hp ha hf =>
    obtain ⟨n, hn, hle⟩ := exists_length_of_fits hf
    exact .inl ⟨_, n, hp, hn, hle, rfl⟩
  | overrun hc hp hr hf =>
    simp only [Progress.reaches, decide_eq_false_iff_not, Nat.not_lt] at hf
    exact .inr ⟨_, _, hp, rfl, hf⟩
  | fail hc hp => exact (concluded (concluded_refused t _)).elim
  | reject hc hp ha => exact (concluded (concluded_refused t _)).elim
  | finish hc hp hd hn => exact (concluded (concluded_bodyEnded t.gathered)).elim
  | breakOff hc hp hd hn => exact (concluded (concluded_retry t.gathered _)).elim
  | stop | ask | accept | reach | skip | take | hand | wake | close => cases hp'

/-- The offset reached moves only with a chunk that is handed over. -/
theorem delivered_transition (ht : Transition store t s t' s') (hch : t'.channel = t.channel) :
    t'.progress.delivered = t.progress.delivered := by
  cases ht with
  | fail hc hp => exact (concluded_refused t _).delivered_eq
  | reject hc hp ha => exact (concluded_refused t _).delivered_eq
  | finish hc hp hd hn => exact (concluded_bodyEnded t.gathered).delivered_eq
  | breakOff hc hp hd hn => exact (concluded_retry t.gathered _).delivered_eq
  | accept hc hp ha hf =>
    obtain ⟨rfl, -⟩ := accept_eq_ok ha
    rfl
  | hand hc hp hr hf | overrun hc hp hr hf => simp at hch
  | _ => rfl

/-- A chunk that is handed over moves the offset behind it, or breaks the task down. -/
theorem delivered_of_offering (ht : Transition store t s t' s') {b : List UInt8}
    {body : List Item} (hp : t.phase = .offering b body) (hch : t'.channel ≠ t.channel) :
    t'.phase = .lost ∨ t'.progress.delivered.toNat = t.progress.delivered.toNat + b.length := by
  cases ht with
  | hand hc hp' hr hf =>
    cases hp.symm.trans hp'
    exact .inr (toNat_add_ofNat (of_decide_eq_true hf))
  | overrun hc hp' hr hf => exact .inl rfl
  | stop hc hp' => exact absurd rfl hch
  | ask hc hp' | fail hc hp' | accept hc hp' | overflow hc hp' | reject hc hp' | reach hc hp'
  | finish hc hp' | breakOff hc hp' | skip hc hp' | take hc hp' | wake hc hp' | close hc hp' =>
    cases hp.symm.trans hp'

/-- Handing over the last signal leaves the offset where it is. -/
theorem delivered_of_closing (ht : Transition store t s t' s') {last : Signal}
    (hp : t.phase = .closing last) : t'.progress.delivered = t.progress.delivered := by
  cases ht with
  | stop hc hp' => rfl
  | close hc hp' hr => rfl
  | ask hc hp' | fail hc hp' | accept hc hp' | overflow hc hp' | reject hc hp' | reach hc hp'
  | finish hc hp' | breakOff hc hp' | skip hc hp' | take hc hp' | hand hc hp' | overrun hc hp'
  | wake hc hp' => cases hp.symm.trans hp'

/-- A task that is over makes no step. -/
theorem isEnded_eq_false_of_transition (ht : Transition store t s t' s') : t.isEnded = false := by
  cases ht with
  | stop hc hp => exact hp
  | ask hc hp | fail hc hp | accept hc hp | overflow hc hp | reject hc hp | reach hc hp
  | finish hc hp | breakOff hc hp | skip hc hp | take hc hp | hand hc hp | overrun hc hp
  | wake hc hp | close hc hp => exact isEnded_of_phase hp rfl

/-- An answer that is awaited after a step was so before, or is that to the request just made. -/
theorem Course.asked_of_work (store : Store σ) (c : Course σ) {a : Answer}
    (hp : (c.work store).transfer.phase = .awaiting a) :
    c.work store = c ∨
      .asked ⟨(c.work store).transfer.nextRequest, a⟩ ∈ (c.work store).events := by
  cases hs : c.transfer.step store.logged (c.outside, []) with
  | none => exact .inl (by simp only [work, hs])
  | some r =>
    obtain ⟨t', s', exchanges⟩ := r
    have concluded {u : Transfer} (h : u.Concluded t') : False := by
      simp only [work, hs] at hp
      rcases h.phase_eq with ⟨last, hl, -⟩ | ⟨left, hl⟩ <;> cases hl.symm.trans hp
    simp only [work, hs] at hp ⊢
    refine .inr ?_
    cases transition_of_step hs with
    | ask hc hp' =>
      cases hp
      simp [Store.logged, nextRequest]
    | fail hc hp => exact (concluded (concluded_refused _ _)).elim
    | reject hc hp ha => exact (concluded (concluded_refused _ _)).elim
    | finish hc hp hd hn => exact (concluded (concluded_bodyEnded _)).elim
    | breakOff hc hp hd hn => exact (concluded (concluded_retry _ _)).elim
    | _ => cases hp

/-! ### Exchanges that do not overrun -/

/-- A phase in which no offset to come is too large for a word. -/
def Phase.Within (t : Transfer) : Phase → Prop
  | .awaiting a => ¬Exchange.Overruns ⟨t.nextRequest, a⟩
  | .reading body => t.progress.delivered.toNat + (body.flatMap Item.bytes).length < UInt64.size
  | .offering b body =>
    t.progress.delivered.toNat + b.length + (body.flatMap Item.bytes).length < UInt64.size
  | .lost => False
  | _ => True

theorem Concluded.within (h : t.Concluded t') : t'.phase.Within t' := by
  cases h <;> trivial

/-- The declared end of a response that does not overrun is a word. -/
theorem fits_of_not_overruns {r : Response} (h : ¬Exchange.Overruns ⟨t.nextRequest, .response r⟩) :
    t.progress.fits r = true := by
  rw [← Bool.not_eq_false]
  intro hf
  obtain ⟨n, hn, hle⟩ := exists_length_of_fits hf
  exact h ⟨r, rfl, .inl ⟨n, hn, (offset_nextRequest t).symm ▸ hle⟩⟩

/-- A step of a task whose exchanges do not overrun. -/
theorem within_transition (h : t.phase.Within t)
    (hask : t.phase = .opening →
      ¬Exchange.Overruns ⟨t.nextRequest, (store.get t.nextRequest s).1⟩)
    (ht : Transition store t s t' s') : t'.phase.Within t' := by
  cases ht with
  | ask hc hp => exact hask hp
  | fail hc hp => exact (concluded_refused t _).within
  | reject hc hp ha => exact (concluded_refused t _).within
  | finish hc hp hd hn => exact (concluded_bodyEnded t.gathered).within
  | breakOff hc hp hd hn => exact (concluded_retry t.gathered _).within
  | accept hc hp ha hf =>
    rename_i r p
    rw [hp] at h
    obtain ⟨rfl, -⟩ := accept_eq_ok ha
    refine Nat.not_le.1 fun hle => h ⟨r, rfl, .inr ?_⟩
    rw [offset_nextRequest]
    exact hle
  | overflow hc hp ha hf =>
    rw [hp] at h
    cases (fits_of_not_overruns h).symm.trans hf
  | skip hc hp hd hn =>
    rw [hp] at h
    exact h
  | take hc hp hd hn =>
    rename_i b bytes body
    rw [hp] at h
    change t.progress.delivered.toNat + (b :: bytes ++ body.flatMap Item.bytes).length < _ at h
    rwa [List.length_append, ← Nat.add_assoc] at h
  | hand hc hp hr hf =>
    rename_i bytes body
    rw [hp] at h
    have hto : (t.progress.afterChunk bytes).delivered.toNat = _ :=
      toNat_add_ofNat (of_decide_eq_true hf)
    change (t.progress.afterChunk bytes).delivered.toNat + _ < _
    rwa [hto]
  | overrun hc hp hr hf =>
    rw [hp] at h
    have hlt := Nat.lt_of_le_of_lt (Nat.le_add_right _ _) h
    cases (decide_eq_true hlt).symm.trans hf
  | stop | reach | wake | close => trivial

/-- What leaves the task where it is leaves its phase within the words. -/
theorem Phase.Within.congr (h : t.phase.Within t) (hplan : t'.plan = t.plan)
    (hprogress : t'.progress = t.progress) (hphase : t'.phase = t.phase) : t'.phase.Within t' := by
  rw [hphase]
  unfold Phase.Within nextRequest at *
  rwa [hplan, hprogress]

theorem phase_ne_lost_of_within (h : t.phase.Within t) : t.phase ≠ .lost := by
  intro hp
  rwa [hp] at h

/-! ### The offsets of a course -/

/-- The offsets of the course of a transfer that starts at an offset: the one reached lies behind
the bytes handed over, the answer that is looked at is that to the last request, and a task that has
broken down has met an offset too large for a word. -/
structure Course.Counted (offset : Nat) (c : Course σ) : Prop where
  delivered : c.transfer.phase ≠ .lost →
    c.transfer.progress.delivered.toNat = offset + (handedBytes c.events).length
  asked : ∀ a, c.transfer.phase = .awaiting a → .asked ⟨c.transfer.nextRequest, a⟩ ∈ c.events
  lost : c.transfer.phase = .lost → Overruns offset c.events

namespace Course.Counted

theorem ofStart (plan : Plan) (offset : UInt64) (etag : Option String) (outside : σ) :
    Counted offset.toNat { transfer := .start plan offset etag, outside : Course σ } where
  delivered _ := rfl
  asked _ hp := by cases hp
  lost hp := by cases hp

theorem work (store : Store σ) (h : c.Counted offset)
    (hclosing : ∀ last, c.transfer.phase = .closing last → last.isTerminal = true) :
    (c.work store).Counted offset := by
  have asked (a : Answer) (hp : (c.work store).transfer.phase = .awaiting a) :
      .asked ⟨(c.work store).transfer.nextRequest, a⟩ ∈ (c.work store).events := by
    rcases c.asked_of_work store hp with he | hmem
    · rw [he] at hp ⊢
      exact h.asked a hp
    · exact hmem
  rcases Course.act_work store c with he | ⟨t', s', exchanges, ht, hcases⟩
  · rw [he]
    exact h
  have hdelivered := h.delivered fun hp =>
    Bool.false_ne_true ((isEnded_eq_false_of_transition ht).symm.trans (isEnded_iff.2 (.inr hp)))
  rcases hcases with ⟨he, hch⟩ | ⟨answer, hp, hp', hch, he⟩ | ⟨x, hch, hx, he⟩
  · refine ⟨fun _ => ?_, asked, fun hp => ?_⟩
    · rw [he, delivered_transition ht hch]
      exact hdelivered
    · rw [he] at hp ⊢
      rcases lost_of_transition ht hp with ⟨r, n, hr, hn, hle, -⟩ | ⟨b, body, -, hch', -⟩
      · exact .inr ⟨_, r, n, h.asked _ hr, hn, by rwa [offset_nextRequest]⟩
      · simp [hch] at hch'
  · refine ⟨fun _ => ?_, asked, fun hp => ?_⟩
    · rw [he, delivered_transition ht hch, hdelivered]
      simp [handedBytes, Event.handedBytes]
    · rw [he] at hp
      cases hp'.symm.trans hp
  · have hne : t'.channel ≠ c.transfer.channel := by simp [hch]
    refine ⟨fun hgo => ?_, asked, fun hp => ?_⟩
    · rw [he] at hgo ⊢
      rcases hx with ⟨b, body, hp, rfl⟩ | hp
      · have hd := (delivered_of_offering ht hp hne).resolve_left hgo
        rw [hd, hdelivered, handedBytes_append, List.length_append, Nat.add_assoc]
        simp [handedBytes, Event.handedBytes, Signal.bytes]
      · rw [delivered_of_closing ht hp, hdelivered]
        simp [handedBytes, Event.handedBytes, Signal.bytes_eq_nil (hclosing x hp)]
    · rw [he] at hp ⊢
      rcases lost_of_transition ht hp with ⟨r, n, -, -, -, hch'⟩ | ⟨b, body, -, hch', hle⟩
      · exact absurd hch' hne
      · obtain rfl : x = .chunk b := by simpa [hch] using hch'
        refine .inl ?_
        rw [handedBytes_append, List.length_append, ← Nat.add_assoc, ← hdelivered]
        simpa [handedBytes, Event.handedBytes, Signal.bytes] using hle

/-- What hands nothing over and leaves the task where it is keeps the offsets. -/
theorem append (h : c.Counted offset) {u : Transfer} {x : Event} (hplan : u.plan = c.transfer.plan)
    (hprogress : u.progress = c.transfer.progress) (hphase : u.phase = c.transfer.phase)
    (hx : x.handedBytes = []) :
    Counted offset { c with transfer := u, events := c.events ++ [x] } where
  delivered hp := by
    rw [hprogress, h.delivered (hphase ▸ hp)]
    simp [handedBytes, hx]
  asked a hp := by
    have hrequest : u.nextRequest = c.transfer.nextRequest := by
      simp only [nextRequest, hplan, hprogress]
    exact List.mem_append_left _ (hrequest ▸ h.asked a (hphase ▸ hp))
  lost hp := (h.lost (hphase ▸ hp)).append _

theorem lapse (h : c.Counted offset) (span : Duration) :
    Counted offset { c with transfer := c.transfer.lapse span } := by
  unfold Transfer.lapse
  split
  · rename_i left hp
    exact
      { delivered := fun _ => h.delivered (by rw [hp]; exact nofun)
        asked := fun _ hx => by cases hx
        lost := fun hx => by cases hx }
  · exact h

/-- Every act keeps the offsets. -/
theorem act (store : Store σ) (h : c.Counted offset)
    (hclosing : ∀ last, c.transfer.phase = .closing last → last.isTerminal = true) (a : Act) :
    (c.act store a).Counted offset := by
  cases a with
  | work => exact h.work store hclosing
  | pass span => exact h.lapse span
  | request n =>
    simp only [Course.act]
    split
    · rename_i u hu
      unfold Transfer.request at hu
      split at hu
      · cases hu
      · cases hu
        exact h.append rfl rfl rfl rfl
    · exact h
  | next =>
    obtain ⟨hplan, hprogress, hphase, -⟩ := next_frame (x := c.transfer.next.1) rfl
    exact h.append hplan hprogress hphase rfl
  | cancel => exact h.append rfl rfl rfl rfl

end Course.Counted

end QueryResults.Download.Transfer
