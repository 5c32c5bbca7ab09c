import QueryResults.Proofs.Transfer.Demand
import QueryResults.Proofs.Transfer.Signals

/-!
# The ledger of demand

Chunks are granted by the consumer and handed over by the task. In every course, with every store,
the chunks handed over and the demand that is due never make up more than was granted. They make up
all that was granted as long as no more than a word of it was outstanding at any moment; beyond
that, demand is lost to the range of words.

The demand that the task acts on changes only with a grant and with a chunk handed over. So empty
chunks cost nothing, and neither does a resumption, and none of them gains demand. A chunk is
offered only with demand for it, so taking one off never leaves the range of words.

## Main definitions

* `Transfer.grantedChunks`, `Transfer.handedChunks`, `Transfer.receivedChunks`: the chunks in a list
  of events.
* `Course.Solvent`: the ledger between the events of a course and its transfer.

## Main results

* `Course.Solvent.run`: every course keeps the ledger.
* `Course.Solvent.demand_act`: what an act does to the demand.
-/

namespace QueryResults.Download.Transfer

open Store

variable {σ : Type} {store : Store σ} {t t' : Transfer} {s s' : σ} {c : Course σ}

/-! ### Chunks in a list of events -/

/-- How many chunks are granted in an event. -/
def Event.grantedChunks : Event → Nat
  | granted n => n.toNat
  | _ => 0

/-- How many chunks have been granted. -/
def grantedChunks (events : List Event) : Nat := (events.map Event.grantedChunks).sum

/-- How many chunks have been handed over. -/
def handedChunks (events : List Event) : Nat := (handedSignals events).countP (!·.isTerminal)

/-- How many chunks have been received. -/
def receivedChunks (events : List Event) : Nat := (receivedSignals events).countP (!·.isTerminal)

/-- At no moment were more chunks outstanding than a word can count. -/
def Countable (events : List Event) : Prop :=
  ∀ before, before <+: events → grantedChunks before < handedChunks before + UInt64.size

@[simp] theorem grantedChunks_append (l l' : List Event) :
    grantedChunks (l ++ l') = grantedChunks l + grantedChunks l' := by
  simp [grantedChunks]

@[simp] theorem handedChunks_append (l l' : List Event) :
    handedChunks (l ++ l') = handedChunks l + handedChunks l' := by
  simp [handedChunks]

@[simp] theorem grantedChunks_singleton (x : Event) : grantedChunks [x] = x.grantedChunks := by
  simp [grantedChunks]

@[simp] theorem handedChunks_singleton (x : Event) :
    handedChunks [x] = x.handedSignal.toList.countP (!·.isTerminal) := by
  simp [handedChunks]

/-- What could be counted at every moment could be counted at every earlier one. -/
theorem Countable.of_append {l l' : List Event} (h : Countable (l ++ l')) : Countable l :=
  fun _ hb => h _ (hb.trans (List.prefix_append l l'))

/-! ### Steps of the task -/

theorem due_gathered_le (t : Transfer) : t.gathered.due ≤ t.due := by
  have := t.toNat_demandNow
  simp only [gathered, due, List.map_nil, List.sum_nil] at *
  omega

theorem Concluded.due_eq (h : t.Concluded t') : t'.due = t.due := by
  unfold due
  rw [h.demand_eq, h.granted_eq]

theorem Concluded.demandNow_eq (h : t.Concluded t') : t'.demandNow = t.demandNow := by
  unfold demandNow
  rw [h.demand_eq, h.granted_eq]

/-- A step of the task that hands over nothing leaves the demand as it is, or takes it into
account. -/
theorem due_transition (ht : Transition store t s t' s') (hch : t'.channel = t.channel) :
    (t'.due = t.due ∨ t'.due = t.gathered.due) ∧ t'.demandNow = t.demandNow := by
  have concluded (h : t.Concluded t') :
      (t'.due = t.due ∨ t'.due = t.gathered.due) ∧ t'.demandNow = t.demandNow :=
    ⟨.inl h.due_eq, h.demandNow_eq⟩
  have gathered (h : t.gathered.Concluded t') :
      (t'.due = t.due ∨ t'.due = t.gathered.due) ∧ t'.demandNow = t.demandNow :=
    ⟨.inr h.due_eq, h.demandNow_eq⟩
  cases ht with
  | stop => exact ⟨.inl rfl, rfl⟩
  | ask => exact ⟨.inl rfl, rfl⟩
  | fail hc hp => exact concluded (concluded_refused t _)
  | accept hc hp ha hf =>
    obtain ⟨rfl, -⟩ := accept_eq_ok ha
    exact ⟨.inl rfl, rfl⟩
  | overflow => exact ⟨.inl rfl, rfl⟩
  | reject hc hp ha => exact concluded (concluded_refused t _)
  | reach => exact ⟨.inl rfl, rfl⟩
  | finish hc hp hd hn => exact gathered (concluded_bodyEnded _)
  | breakOff hc hp hd hn => exact gathered (concluded_retry _ _)
  | skip => exact ⟨.inr rfl, rfl⟩
  | take => exact ⟨.inr rfl, rfl⟩
  | hand | overrun => simp at hch
  | wake => exact ⟨.inl rfl, rfl⟩
  | close => simp at hch

/-- A chunk is offered with a byte in it and with demand for it. -/
theorem offering_of_transition (ht : Transition store t s t' s') {b : List UInt8}
    {body : List Item} (hp' : t'.phase = .offering b body) :
    b ≠ [] ∧ 0 < t'.progress.demand.toNat := by
  have concluded {u : Transfer} (h : u.Concluded t') : False := by
    rcases h.phase_eq with ⟨last, hl, -⟩ | ⟨left, hl⟩ <;> cases hl.symm.trans hp'
  cases ht with
  | fail hc hp => exact (concluded (concluded_refused t _)).elim
  | reject hc hp ha => exact (concluded (concluded_refused t _)).elim
  | finish hc hp hd hn => exact (concluded (concluded_bodyEnded t.gathered)).elim
  | breakOff hc hp hd hn => exact (concluded (concluded_retry t.gathered _)).elim
  | take hc hp hd hn =>
    cases hp'
    exact ⟨List.cons_ne_nil _ _, Nat.pos_of_ne_zero fun h0 => hn (UInt64.toNat_inj.1 h0)⟩
  | stop | ask | accept | overflow | reach | skip | hand | overrun | wake | close => cases hp'

/-- A chunk handed over uses up the demand for one. -/
theorem due_of_offering (ht : Transition store t s t' s') {b : List UInt8} {body : List Item}
    (hp : t.phase = .offering b body) (hpos : 0 < t.progress.demand.toNat)
    (hch : t'.channel ≠ t.channel) :
    t'.due + 1 = t.due ∧ t'.progress.demand.toNat + 1 = t.progress.demand.toNat := by
  have hsub : (t.progress.demand - 1).toNat + 1 = t.progress.demand.toNat := by
    have hle : 1 ≤ t.progress.demand := UInt64.le_iff_toNat_le.2 hpos
    rw [UInt64.toNat_sub_of_le _ _ hle]
    exact Nat.sub_add_cancel hpos
  cases ht with
  | stop => exact absurd rfl hch
  | hand hc hp' hr hf | overrun hc hp' hr hf =>
    refine ⟨?_, hsub⟩
    simp only [due, Progress.afterChunk]
    omega
  | ask hc hp' | fail hc hp' | accept hc hp' | overflow hc hp' | reject hc hp' | reach hc hp'
  | finish hc hp' | breakOff hc hp' | skip hc hp' | take hc hp' | wake hc hp' | close hc hp' =>
    cases hp.symm.trans hp'

/-- The last signal uses up no demand. -/
theorem due_of_closing (ht : Transition store t s t' s') {last : Signal}
    (hp : t.phase = .closing last) : t'.due = t.due ∧ t'.demandNow = t.demandNow := by
  cases ht with
  | stop | close => exact ⟨rfl, rfl⟩
  | ask hc hp' | fail hc hp' | accept hc hp' | overflow hc hp' | reject hc hp' | reach hc hp'
  | finish hc hp' | breakOff hc hp' | skip hc hp' | take hc hp' | hand hc hp' | overrun hc hp'
  | wake hc hp' => cases hp.symm.trans hp'

/-- Receiving a signal grants nothing and uses up no demand. -/
theorem due_next {x : Receipt} (hn : t.next = (x, t')) :
    t'.due = t.due ∧ t'.demandNow = t.demandNow := by
  cases x with
  | signal x =>
    obtain ⟨rest, -, rfl⟩ := next_eq_signal hn
    exact ⟨rfl, rfl⟩
  | _ =>
    obtain ⟨closed, rfl⟩ := next_eq_of_not_signal hn nofun
    exact ⟨rfl, rfl⟩

/-- A body is polled with demand that is due. -/
theorem due_pos_of_polls (h : t.Polls) : 0 < t.due := by
  obtain ⟨-, -, -, hn⟩ := polls_iff.1 h
  have hpos : t.demandNow.toNat ≠ 0 := fun h0 => hn (UInt64.toNat_inj.1 h0)
  have := t.toNat_demandNow
  omega

/-- An empty chunk that is polled is dropped. -/
theorem Course.work_of_empty (store : Store σ) {body : List Item}
    (hp : c.transfer.phase = .reading (.chunk [] :: body)) (h : c.transfer.Polls) :
    c.work store =
      { c with transfer := { c.transfer.gathered with phase := .reading body } } := by
  obtain ⟨hc, -, hd, hn⟩ := polls_iff.1 h
  have hstep : c.transfer.step store.logged (c.outside, []) =
      some ({ c.transfer.gathered with phase := .reading body }, (c.outside, [])) := by
    simp [step, advance, hp, hc, hd, hn, takeItem, gathered]
  simp [work, hstep, gathered]

/-! ### The ledger -/

/-- The ledger between what has happened and where the transfer stands. -/
structure Course.Solvent (c : Course σ) : Prop where
  due_le : handedChunks c.events + c.transfer.due ≤ grantedChunks c.events
  due_eq : Countable c.events → handedChunks c.events + c.transfer.due = grantedChunks c.events
  offering : ∀ b body, c.transfer.phase = .offering b body →
    b ≠ [] ∧ 0 < c.transfer.progress.demand.toNat
  closing : ∀ last, c.transfer.phase = .closing last → last.isTerminal = true
  chunks : .handed (.chunk []) ∉ c.events

namespace Course.Solvent

theorem ofStart (plan : Plan) (offset : UInt64) (etag : Option String) (outside : σ) :
    Solvent { transfer := .start plan offset etag, outside : Course σ } where
  due_le := Nat.le_refl _
  due_eq _ := rfl
  offering := nofun
  closing := nofun
  chunks := nofun

/-- As long as a word can count what is outstanding, taking demand into account loses nothing. -/
theorem due_gathered (h : c.Solvent) (hcount : Countable c.events) :
    c.transfer.gathered.due = c.transfer.due := by
  refine Transfer.due_gathered ?_
  have := h.due_eq hcount
  have := hcount _ (List.prefix_refl _)
  omega

/-- What an act adds to the events and to the demand that is due keeps the ledger. -/
theorem append (h : c.Solvent) (l : List Event)
    (hle : handedChunks l + t.due ≤ c.transfer.due + grantedChunks l)
    (heq : Countable c.events → handedChunks l + t.due = c.transfer.due + grantedChunks l)
    (offering : ∀ b body, t.phase = .offering b body → b ≠ [] ∧ 0 < t.progress.demand.toNat)
    (closing : ∀ last, t.phase = .closing last → last.isTerminal = true)
    (chunks : .handed (.chunk []) ∉ l) :
    Solvent { transfer := t, outside := s, events := c.events ++ l } where
  due_le := by
    have := h.due_le
    simp only [handedChunks_append, grantedChunks_append]
    omega
  due_eq hcount := by
    have := h.due_eq hcount.of_append
    have := heq hcount.of_append
    simp only [handedChunks_append, grantedChunks_append]
    omega
  offering
  closing
  chunks hx := by
    rcases List.mem_append.1 hx with hx | hx
    · exact h.chunks hx
    · exact chunks hx

/-- What hands over nothing and grants nothing keeps the ledger. -/
theorem quiet (h : c.Solvent) (hdue : t.due = c.transfer.due ∨ t.due = c.transfer.gathered.due)
    (l : List Event) (hhanded : handedChunks l = 0) (hgranted : grantedChunks l = 0)
    (offering : ∀ b body, t.phase = .offering b body → b ≠ [] ∧ 0 < t.progress.demand.toNat)
    (closing : ∀ last, t.phase = .closing last → last.isTerminal = true)
    (chunks : .handed (.chunk []) ∉ l) :
    Solvent { transfer := t, outside := s, events := c.events ++ l } := by
  have hle := due_gathered_le c.transfer
  refine h.append l (by omega) (fun hcount => ?_) offering closing chunks
  have := h.due_gathered hcount
  omega

theorem work (store : Store σ) (h : c.Solvent) : (c.work store).Solvent := by
  rcases Course.act_work store c with he | ⟨t', s', exchanges, ht, hcases⟩
  · rw [he]
    exact h
  have offering (b body) (hp : t'.phase = .offering b body) := offering_of_transition ht hp
  have closing (last) (hp : t'.phase = .closing last) := isTerminal_of_transition ht hp
  rcases hcases with ⟨he, hch⟩ | ⟨answer, hp, -, hch, he⟩ | ⟨x, hch, hx, he⟩
  · rw [he]
    simpa using h.quiet (due_transition ht hch).1 [] rfl rfl offering closing nofun
  · rw [he]
    exact h.quiet (due_transition ht hch).1 _ rfl rfl offering closing (by simp)
  · have hne : t'.channel ≠ c.transfer.channel := by simp [hch]
    rw [he]
    rcases hx with ⟨b, body, hp, rfl⟩ | hx
    · obtain ⟨hb, hpos⟩ := h.offering b body hp
      obtain ⟨hdue, -⟩ := due_of_offering ht hp hpos hne
      have hone : handedChunks [.handed (.chunk b)] = 1 := rfl
      have hzero : grantedChunks [.handed (.chunk b)] = 0 := rfl
      exact h.append _ (by omega) (fun _ => by omega) offering closing (by simpa [eq_comm] using hb)
    · obtain ⟨hdue, -⟩ := due_of_closing ht hx
      have hterm := h.closing x hx
      have hzero : handedChunks [.handed x] = 0 := by simp [hterm]
      have hzero' : grantedChunks [.handed x] = 0 := rfl
      refine h.append _ (by omega) (fun _ => by omega) offering closing ?_
      rw [List.mem_singleton]
      rintro ⟨⟩
      cases hterm

/-- Every act keeps the ledger. -/
theorem act (store : Store σ) (h : c.Solvent) (a : Act) : (c.act store a).Solvent := by
  cases a with
  | work => exact h.work store
  | pass span =>
    simp only [Course.act, lapse]
    split
    · exact
        { h with
          offering := fun _ _ ho => by cases ho
          closing := fun _ hl => by cases hl }
    · exact h
  | request n =>
    simp only [Course.act]
    split
    · rename_i u hu
      unfold Transfer.request at hu
      split at hu
      · cases hu
      · cases hu
        have hdue := due_grant c.transfer n
        have hone : grantedChunks [.granted n] = n.toNat := by simp [Event.grantedChunks]
        have hzero : handedChunks [.granted n] = 0 := rfl
        exact h.append _ (by omega) (fun _ => by omega) h.offering h.closing (by simp)
    · exact h
  | next =>
    have hn : c.transfer.next = (c.transfer.next.1, c.transfer.next.2) := rfl
    obtain ⟨-, hprogress, hphase, -⟩ := next_frame hn
    refine h.quiet (.inl (due_next hn).1) _ rfl rfl ?_ ?_ (by simp)
    · rw [hprogress, hphase]
      exact h.offering
    · rw [hphase]
      exact h.closing
  | cancel =>
    exact h.append (t := c.transfer.cancel) [.cancelled] (Nat.zero_add _).le
      (fun _ => Nat.zero_add _) h.offering h.closing (by simp)

/-- Every course keeps the ledger. -/
theorem run (store : Store σ) (h : c.Solvent) (acts : List Act) : (c.run store acts).Solvent := by
  induction acts generalizing c with
  | nil => exact h
  | cons a acts ih => exact ih (h.act store a)

/-- An act that hands over no chunk changes the demand only by a grant, and a chunk handed over
costs exactly one. -/
theorem demand_act (h : c.Solvent) (store : Store σ) (a : Act) :
    (handedChunks (c.act store a).events = handedChunks c.events ∧
      (grantedChunks (c.act store a).events = grantedChunks c.events →
        (c.act store a).transfer.demandNow = c.transfer.demandNow)) ∨
    (handedChunks (c.act store a).events = handedChunks c.events + 1 ∧
      (c.act store a).transfer.progress.demand.toNat + 1 =
        c.transfer.progress.demand.toNat) := by
  cases a with
  | work =>
    simp only [Course.act]
    rcases Course.act_work store c with he | ⟨t', s', exchanges, ht, hcases⟩
    · rw [he]
      exact .inl ⟨rfl, fun _ => rfl⟩
    rcases hcases with ⟨he, hch⟩ | ⟨answer, -, -, hch, he⟩ | ⟨x, hch, hx, he⟩
    · rw [he]
      exact .inl ⟨rfl, fun _ => (due_transition ht hch).2⟩
    · rw [he]
      exact .inl ⟨by simp, fun _ => (due_transition ht hch).2⟩
    · rw [he]
      rcases hx with ⟨b, body, hp, rfl⟩ | hx
      · refine .inr ⟨by simp [Signal.isTerminal], ?_⟩
        exact (due_of_offering ht hp (h.offering b body hp).2 (by simp [hch])).2
      · exact .inl ⟨by simp [h.closing x hx], fun _ => (due_of_closing ht hx).2⟩
  | pass span =>
    simp only [Course.act, lapse]
    split <;> exact .inl ⟨trivial, fun _ => rfl⟩
  | request n =>
    simp only [Course.act]
    split
    · rename_i u hu
      unfold Transfer.request at hu
      split at hu
      · cases hu
      · rename_i hn
        refine .inl ⟨by simp, fun hgranted => absurd (UInt64.toNat_inj.1 ?_) hn⟩
        simpa [Event.grantedChunks] using hgranted
    · exact .inl ⟨rfl, fun _ => rfl⟩
  | next =>
    have hn : c.transfer.next = (c.transfer.next.1, c.transfer.next.2) := rfl
    exact .inl ⟨by simp [Course.act], fun _ => (due_next hn).2⟩
  | cancel => exact .inl ⟨by simp [Course.act], fun _ => rfl⟩

end Course.Solvent

end QueryResults.Download.Transfer
