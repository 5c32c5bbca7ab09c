import QueryResults.Proofs.Transfer.Sound

/-!
# Demand and progress

The demand of a transfer is what was granted and not yet used up: what the task has counted and what
still lies in its mailbox. Together with the chunks in the channel it is the *credit* of the
transfer, the number of chunks that its consumer may still receive. As long as it is a word, no step
of the task changes it: a chunk handed over leaves the demand and enters the channel, and
requesting the object again costs nothing.

A transfer that is not cancelled, whose store is prompt, whose channel is empty and whose credit is
positive never waits for its consumer or its store: at rest, it pauses (`Steady.exists_pausing`).

## Main definitions

* `Transfer.due`, `Transfer.credit`.
* `Transfer.Steady`: a transfer that nothing but its pauses can hold up.

## Main results

* `Transfer.toNat_demandNow`: the demand the task acts on.
* `Transfer.Steady.transition`, `Transfer.Steady.exists_pausing`.
-/

namespace QueryResults.Download.Transfer

open Store

variable {σ : Type} {store : Store σ} {t t' : Transfer} {s s' : σ}

/-! ### Demand -/

/-- The number of chunks granted and not yet handed over. -/
def due (t : Transfer) : Nat := t.progress.demand.toNat + (t.granted.map UInt64.toNat).sum

/-- The number of chunks granted and not yet received. -/
def credit (t : Transfer) : Nat := t.due + t.channel.countP (!·.isTerminal)

theorem toNat_addDemand (a b : UInt64) :
    (addDemand a b).toNat = min (a.toNat + b.toNat) (UInt64.size - 1) := by
  unfold addDemand
  rw [UInt64.toNat_ofNat']
  exact Nat.mod_eq_of_lt (Nat.lt_of_le_of_lt (Nat.min_le_right _ _) (by decide))

/-- The task acts on all demand that is due, up to the largest word. -/
theorem toNat_demandNow (t : Transfer) : t.demandNow.toNat = min t.due (UInt64.size - 1) := by
  unfold demandNow due
  generalize t.progress.demand = d
  induction t.granted generalizing d with
  | nil =>
    have : d.toNat < UInt64.size := d.toNat_lt
    simp only [List.foldl_nil, List.map_nil, List.sum_nil]
    omega
  | cons g l ih =>
    simp only [List.foldl_cons, List.map_cons, List.sum_cons]
    rw [ih, toNat_addDemand]
    omega

theorem due_gathered (h : t.due < UInt64.size) : t.gathered.due = t.due := by
  have := t.toNat_demandNow
  simp only [gathered, due, List.map_nil, List.sum_nil] at *
  omega

theorem due_grant (t : Transfer) (n : UInt64) : (t.grant n).due = t.due + n.toNat := by
  simp [grant, due, Nat.add_assoc]

/-! ### Progress without the consumer -/

/-- The items of a body that is still being read never stall, and an answer is there. -/
def Phase.IsPrompt : Phase → Prop
  | .awaiting answer => answer.IsPrompt
  | .reading body | .offering _ body => ∀ i ∈ body, i ≠ .stall
  | _ => True

/-- Whether the task neither offers a chunk nor is over. -/
def Phase.isBetween : Phase → Bool
  | .offering _ _ | .ended | .lost => false
  | _ => true

/-- A transfer that has room and demand for `credit` chunks, is neither cancelled nor received to
its end, and whose store is prompt. -/
structure Steady (credit : Nat) (t : Transfer) : Prop where
  credit_eq : t.credit = credit
  credit_lt : credit < UInt64.size
  capacity_pos : 0 < t.plan.capacity
  demand : ∀ b body, t.phase = .offering b body → 0 < t.progress.demand.toNat
  cancelled : t.cancelled = false
  closed : t.closed = false
  ended : t.isEnded = true → ∃ x ∈ t.channel, x.isTerminal = true
  prompt : t.phase.IsPrompt

namespace Steady

variable {credit : Nat}

theorem due_lt (h : Steady credit t) : t.due < UInt64.size :=
  Nat.lt_of_le_of_lt (Nat.le_add_right _ _) (h.credit_eq ▸ h.credit_lt)

/-- A steady transfer stays so in another phase in which it neither offers a chunk nor is over. -/
theorem of_phase (h : Steady credit t) (hplan : t'.plan = t.plan) (hdue : t'.due = t.due)
    (hch : t'.channel = t.channel) (hc : t'.cancelled = t.cancelled) (hcl : t'.closed = t.closed)
    (hph : t'.phase.isBetween = true) (hp : t'.phase.IsPrompt) : Steady credit t' where
  credit_eq := by
    rw [← h.credit_eq, Transfer.credit, Transfer.credit, hdue, hch]
  credit_lt := h.credit_lt
  capacity_pos := hplan ▸ h.capacity_pos
  demand b body hb := by
    rw [hb] at hph
    cases hph
  cancelled := hc.trans h.cancelled
  closed := hcl.trans h.closed
  ended he := by
    rcases isEnded_iff.1 he with he | he
    · rw [he] at hph
      cases hph
    · rw [he] at hph
      cases hph
  prompt := hp

/-- Concluding an attempt leaves a transfer steady. -/
theorem concluded (h : Steady credit t) (hc : t.Concluded t') : Steady credit t' := by
  cases hc with
  | closing hl => exact h.of_phase rfl rfl rfl rfl rfl rfl trivial
  | pausing hl => exact h.of_phase rfl rfl rfl rfl rfl rfl trivial

theorem gathered (h : Steady credit t) (hph : t.phase.isBetween = true) :
    Steady credit t.gathered :=
  h.of_phase rfl (due_gathered h.due_lt) rfl rfl rfl hph h.prompt

/-- A chunk that is handed over uses up the demand for one, which then waits in the channel. -/
theorem hand (h : Steady credit t) {bytes : List UInt8} {body : List Item}
    (hp : t.phase = .offering bytes body) :
    Steady credit
      { t with
        channel := t.channel ++ [.chunk bytes]
        progress := t.progress.afterChunk bytes
        phase := .reading body } where
  credit_eq := by
    have hsub : (t.progress.demand - 1).toNat = t.progress.demand.toNat - 1 :=
      UInt64.toNat_sub_of_le _ _ (UInt64.le_iff_toNat_le.2 (h.demand _ _ hp))
    have hpos := h.demand _ _ hp
    rw [← h.credit_eq]
    simp only [Transfer.credit, due, Progress.afterChunk, List.countP_append,
      List.countP_singleton, Signal.isTerminal, hsub, Bool.not_false, ↓reduceIte]
    omega
  credit_lt := h.credit_lt
  capacity_pos := h.capacity_pos
  demand _ _ hx := by cases hx
  cancelled := h.cancelled
  closed := h.closed
  ended hx := by cases hx
  prompt := by
    have hprompt := h.prompt
    rw [hp] at hprompt
    exact hprompt

/-- The last signal uses up no demand. -/
theorem close (h : Steady credit t) {last : Signal} (hlast : last.isTerminal = true) :
    Steady credit { t with channel := t.channel ++ [last], phase := .ended } where
  credit_eq := by
    rw [← h.credit_eq]
    simp [Transfer.credit, due, hlast]
  credit_lt := h.credit_lt
  capacity_pos := h.capacity_pos
  demand _ _ hx := by cases hx
  cancelled := h.cancelled
  closed := h.closed
  ended _ := ⟨_, List.mem_append_right _ (List.mem_singleton_self _), hlast⟩
  prompt := trivial

/-- A step of the task that does not break down leaves a transfer steady, with the same credit. -/
theorem transition (hlost : t'.phase ≠ .lost)
    (hlast : ∀ last, t.phase = .closing last → last.isTerminal = true)
    (hstore : t.phase = .opening → (store.get t.nextRequest s).1.IsPrompt)
    (h : Steady credit t) (ht : Transition store t s t' s') : Steady credit t' := by
  have reading {body : List Item} (hp : t.phase = .reading body) : Steady credit t.gathered :=
    h.gathered (by rw [hp]; rfl)
  have hprompt := h.prompt
  cases ht with
  | stop hc hp => cases h.cancelled.symm.trans hc
  | ask hc hp => exact h.of_phase rfl rfl rfl rfl rfl rfl (hstore hp)
  | fail hc hp => exact h.concluded (concluded_refused t _)
  | accept hc hp ha hf =>
    obtain ⟨rfl, -⟩ := accept_eq_ok ha
    rw [hp] at hprompt
    exact h.of_phase rfl rfl rfl rfl rfl rfl hprompt
  | overflow hc hp ha hf => exact absurd rfl hlost
  | reject hc hp ha => exact h.concluded (concluded_refused t _)
  | reach hc hp hd => exact h.of_phase rfl rfl rfl rfl rfl rfl trivial
  | finish hc hp hd hn => exact (reading hp).concluded (concluded_bodyEnded _)
  | breakOff hc hp hd hn => exact (reading hp).concluded (concluded_retry _ _)
  | skip hc hp hd hn =>
    rw [hp] at hprompt
    exact (reading hp).of_phase rfl rfl rfl rfl rfl rfl
      fun i hi => hprompt i (List.mem_cons_of_mem _ hi)
  | take hc hp hd hn =>
    rw [hp] at hprompt
    exact
      { reading hp with
        demand := fun b body _ => Nat.pos_of_ne_zero fun h0 => hn (UInt64.toNat_inj.1 h0)
        ended := fun hx => by cases hx
        prompt := fun i hi => hprompt i (List.mem_cons_of_mem _ hi) }
  | hand hc hp hr hf => exact h.hand hp
  | overrun hc hp hr hf => exact absurd rfl hlost
  | wake hc hp hl => exact h.of_phase rfl rfl rfl rfl rfl rfl trivial
  | close hc hp hr => exact h.close (hlast _ hp)

/-- A steady transfer with credit and nothing in its channel can only be pausing when it makes no
step. -/
theorem exists_pausing (h : Steady credit t) (hpos : 0 < credit) (hch : t.channel = [])
    (hrest : t.step store s = none) : ∃ left, t.phase = .pausing left := by
  have hprompt := h.prompt
  cases resting_of_step_eq_none h.cancelled hrest with
  | ended hp =>
    obtain ⟨x, hx, -⟩ := h.ended hp
    cases hch ▸ hx
  | silent hp =>
    rw [hp] at hprompt
    exact hprompt.elim
  | stalled hp =>
    rw [hp] at hprompt
    exact absurd rfl (hprompt _ List.mem_cons_self)
  | starved hp hn =>
    have hdue : t.due = credit := by
      rw [← h.credit_eq, Transfer.credit, hch]
      rfl
    have h0 := t.toNat_demandNow
    rw [hn, hdue] at h0
    have := h.credit_lt
    simp only [UInt64.toNat_zero] at h0
    omega
  | full hp hr =>
    have := h.capacity_pos
    simp [hasRoom, hch, this] at hr
  | pausing hp => exact ⟨_, hp⟩

/-- Granting demand adds to the credit. -/
theorem grant (h : Steady credit t) {n : UInt64} (hlt : credit + n.toNat < UInt64.size) :
    Steady (credit + n.toNat) (t.grant n) where
  credit_eq := by
    rw [← h.credit_eq, Transfer.credit, Transfer.credit, due_grant]
    simp only [Transfer.grant]
    omega
  credit_lt := hlt
  capacity_pos := h.capacity_pos
  demand := h.demand
  cancelled := h.cancelled
  closed := h.closed
  ended := h.ended
  prompt := h.prompt

/-- Receiving a chunk uses up credit for one. -/
theorem next (h : Steady credit t) {chunk : List UInt8}
    (hn : t.next = (.signal (.chunk chunk), t')) : 0 < credit ∧ Steady (credit - 1) t' := by
  obtain ⟨rest, hc, rfl⟩ := next_eq_signal hn
  have hcredit : credit = t.due + rest.countP (!·.isTerminal) + 1 := by
    rw [← h.credit_eq, Transfer.credit, hc]
    simp [Signal.isTerminal, Nat.add_assoc]
  have hlt := h.credit_lt
  refine ⟨by omega, ?_⟩
  exact
    { credit_eq := by
        rw [hcredit]
        rfl
      credit_lt := by omega
      capacity_pos := h.capacity_pos
      demand := h.demand
      cancelled := h.cancelled
      closed := rfl
      ended := fun he => by
        obtain ⟨x, hx, hx'⟩ := h.ended he
        rw [hc] at hx
        rcases List.mem_cons.1 hx with rfl | hx
        · cases hx'
        · exact ⟨x, hx, hx'⟩
      prompt := h.prompt }

/-- A transfer that has just started. -/
theorem ofStart {plan : Plan} {offset : UInt64} {etag : Option String}
    (hpos : 0 < plan.capacity) : Steady 0 (Transfer.start plan offset etag) where
  credit_eq := rfl
  credit_lt := by decide
  capacity_pos := hpos
  demand := nofun
  cancelled := rfl
  closed := rfl
  ended := nofun
  prompt := trivial

/-- A transfer that has just started, once it was granted some chunks. -/
theorem start {plan : Plan} {offset : UInt64} {etag : Option String} {n : UInt64}
    (hpos : 0 < plan.capacity) : Steady n.toNat ((Transfer.start plan offset etag).grant n) :=
  Nat.zero_add n.toNat ▸ (ofStart hpos).grant (by rw [Nat.zero_add]; exact n.toNat_lt)

end Steady

end QueryResults.Download.Transfer
