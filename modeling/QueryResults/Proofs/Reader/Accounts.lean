import QueryResults.Proofs.Reader.Balance
import QueryResults.Proofs.Reader.Course
import QueryResults.Proofs.Store.Scripted

/-!
# The accounts of a reader

At every moment of every course of a reader its counts and those of the task of its transfer fit
together, however the reads and the steps of the task alternate and wherever a read times out. So no
count falls below zero, a read never waits for a task that has nothing to do, and one that times out
has changed nothing.

A read that waits has received nothing since its call: a signal that it takes ends it, or is a
failure behind which another transfer takes the place of the one that failed. That is what the
reader at the call is compared with.

## Main definitions

* `Reader.Pending`: a read that is under way, and the reader at its call.
* `Course.Balanced`: the invariant.
* `Course.Accounts`: what follows of it.

## Main results

* `Course.Balanced.run`: every course keeps the accounts.
* `Reader.keeps_accounts`: the accounts of the reader of an object.
-/

namespace QueryResults.Download.Reader

open Store

variable {σ : Type} {store : Store σ} {r r' : Reader} {t t' : Transfer} {s s' : σ}

/-! ### Reads under way -/

/-- A read that is under way, at whose call the reader was `before`: nothing was received since. The
transfer that there was is still there, with no signal taken from it, or has failed without a chunk
in its channel. -/
structure Pending (before r : Reader) : Prop where
  balanced : before.Balanced
  supplied : before.IsSupplied
  queue_before : before.queue = []
  failed : r.failed = none
  finished : r.finished = false
  queue : r.queue = []
  position : r.position = before.position
  since : ∀ t₀, before.transfer = some t₀ →
    (r.retriesLeft = before.retriesLeft ∧ r.outstanding = before.outstanding ∧
      ∃ t, r.transfer = some t ∧ t₀.channel <+: t.channel) ∨
    (r.retriesLeft < before.retriesLeft ∧ t₀.channel.flatMap Signal.bytes = [])

namespace Pending

variable {before : Reader}

/-- A read that is called has received nothing. -/
theorem refl (h : r.Balanced) (hsupplied : r.IsSupplied) (hfailed : r.failed = none)
    (hfinished : r.finished = false) (hq : r.queue = []) : r.Pending r where
  balanced := h
  supplied := hsupplied
  queue_before := hq
  failed := hfailed
  finished := hfinished
  queue := hq
  position := rfl
  since _ ht := .inl ⟨rfl, rfl, _, ht, List.prefix_refl _⟩

/-- A step of the task. -/
theorem transition (h : before.Pending r) (ht : r.transfer = some t)
    (hstep : Transfer.Transition store t s t' s') :
    before.Pending { r with transfer := some t' } :=
  { h with
    since := fun t₀ ht₀ => by
      rcases h.since t₀ ht₀ with ⟨hr, hout, u, hu, hprefix⟩ | hlost
      · obtain rfl := Option.some.inj (ht.symm.trans hu)
        exact .inl ⟨hr, hout, t', rfl, hprefix.trans (Transfer.prefix_transition hstep)⟩
      · exact .inr hlost }

/-- Demand is granted to another transfer only than that at the call. -/
theorem replenish (h : before.Pending r) : before.Pending r.replenish := by
  rcases replenish_cases r with ⟨he, -⟩ | ⟨-, -, hzero, u, -, he⟩
  · rw [he]
    exact h
  · rw [he]
    exact
      { h with
        since := fun t₀ ht₀ => by
          rcases h.since t₀ ht₀ with ⟨-, hout, -⟩ | hlost
          · have hpos := h.supplied t₀ ht₀ h.queue_before
            omega
          · exact .inr hlost }

/-- Another transfer has taken the place of one that has failed. -/
theorem restarted (h : before.Pending r) (ht : r.transfer = some t) (hf : t.HasFailed)
    (hfailed : r'.failed = none) (hfinished : r'.finished = false)
    (hq : r'.queue = []) (hposition : r'.position = r.position)
    (hr : r'.retriesLeft + 1 = r.retriesLeft) : before.Pending r' where
  balanced := h.balanced
  supplied := h.supplied
  queue_before := h.queue_before
  failed := hfailed
  finished := hfinished
  queue := hq
  position := hposition.trans h.position
  since t₀ ht₀ := by
    refine .inr ?_
    rcases h.since t₀ ht₀ with ⟨hsame, -, u, hu, hprefix⟩ | ⟨hlt, hnone⟩
    · obtain rfl := Option.some.inj (ht.symm.trans hu)
      refine ⟨by omega, List.flatMap_eq_nil_iff.2 fun x hx => ?_⟩
      have hmem := hprefix.subset hx
      rcases hf with ⟨e, hch⟩ | ⟨hch, -⟩
      · rw [hch, List.mem_singleton] at hmem
        rw [hmem]
        rfl
      · rw [hch] at hmem
        cases hmem
    · exact ⟨by omega, hnone⟩

/-- With an empty channel, nothing was received or lost since the call. -/
theorem delivered_eq (h : before.Pending r) (hb : r.Balanced) (ht : r.transfer = some t)
    (hch : t.channel = []) {t₀ : Transfer} (ht₀ : before.transfer = some t₀) :
    t.progress.delivered = t₀.progress.delivered := by
  have hnone : t₀.channel.flatMap Signal.bytes = [] := by
    rcases h.since t₀ ht₀ with ⟨-, -, u, hu, hprefix⟩ | ⟨-, hnone⟩
    · obtain rfl := Option.some.inj (ht.symm.trans hu)
      rw [hch] at hprefix
      rw [List.prefix_nil.1 hprefix]
      rfl
    · exact hnone
  rw [(hb.tallies ht).delivered, (h.balanced.tallies ht₀).delivered, hb.queuedBytes_eq,
    h.balanced.queuedBytes_eq, h.queue, h.queue_before, hnone, hch, h.position]
  rfl

end Pending

/-! ### The accounts of a course -/

/-- What holds of a reader while a read has got so far: a reader with nothing to hand out has
something to come, unless it has come to its end or is about to grant demand. -/
def Stage.Fits (r : Reader) : Stage → Prop
  | .resting => r.IsSupplied
  | .granting n before => n ≠ 0 ∧ before.Pending r
  | .waiting n before => n ≠ 0 ∧ before.Pending r ∧ r.transfer.isSome ∧ r.IsSupplied

/-- The accounts of a reader in a course, and of the retries it has had. -/
structure Course.Balanced (retries : Nat) (c : Course σ) : Prop where
  reader : c.reader.Balanced
  stage : c.stage.Fits c.reader
  restarts : c.restarts + c.reader.retriesLeft = retries

namespace Course.Balanced

variable {retries n : Nat} {before : Reader} {c : Course σ}

theorem start (location : Location) (settings : Settings.Download) (outside : σ) :
    Balanced settings.maxRetries.toNat (Course.start location settings outside) where
  reader := .ofLocation location settings
  stage _ ht := by cases ht
  restarts := Nat.zero_add _

/-- A read that ends. -/
theorem returning (h : c.Balanced retries) (result : Except Failure (List UInt8))
    (hr : r.Balanced) (hsupplied : r.IsSupplied) (hleft : r.retriesLeft = c.reader.retriesLeft) :
    (c.returning result r).Balanced retries :=
  ⟨hr, hsupplied, (congrArg (c.restarts + ·) hleft).trans h.restarts⟩

/-- A read that ends with bytes to hand out. -/
theorem returning_take (h : c.Balanced retries) (result : Except Failure (List UInt8))
    (hr : r.Balanced) (hleft : r.retriesLeft = c.reader.retriesLeft) (n : Nat) :
    (c.returning result (r.take n).2).Balanced retries :=
  h.returning result (hr.advance n).replenish (hr.advance n).isSupplied_replenish
    ((retriesLeft_replenish _).trans hleft)

theorem work (h : c.Balanced retries) (store : Store σ) : (c.work store).Balanced retries := by
  rcases c.work_cases store with he | ⟨t, t', s', ht, hstep, he⟩
  · rwa [he]
  have supplied (hsupplied : c.reader.IsSupplied) :
      IsSupplied { c.reader with transfer := some t' } := fun _ _ hq => hsupplied t ht hq
  have hstage := h.stage
  rw [he]
  refine ⟨h.reader.transition ht hstep, ?_, h.restarts⟩
  change c.stage.Fits { c.reader with transfer := some t' }
  cases hst : c.stage with
  | resting =>
    rw [hst] at hstage
    exact supplied hstage
  | granting n before =>
    rw [hst] at hstage
    exact ⟨hstage.1, hstage.2.transition ht hstep⟩
  | waiting n before =>
    rw [hst] at hstage
    obtain ⟨hn, hpending, -, hsupplied⟩ := hstage
    exact ⟨hn, hpending.transition ht hstep, rfl, supplied hsupplied⟩

/-- A read that is called begins its loop, or ends at once. -/
theorem call (h : c.Balanced retries) (hstage : c.stage = .resting) (n : Nat) :
    (c.call n).Balanced retries := by
  have hsupplied : c.reader.IsSupplied := by
    have hfits := h.stage
    rwa [hstage] at hfits
  unfold Course.call
  split
  · exact h.returning _ h.reader hsupplied rfl
  · rename_i hn
    cases hfailed : c.reader.failed with
    | some e => exact h.returning _ h.reader hsupplied rfl
    | none =>
      dsimp only
      split
      · rename_i hwait
        simp only [Bool.and_eq_true, List.isEmpty_iff, Bool.not_eq_true'] at hwait
        exact ⟨h.reader, ⟨hn, .refl h.reader hsupplied hfailed hwait.2 hwait.1⟩, h.restarts⟩
      · exact h.returning_take _ h.reader rfl n

/-- A read that grants demand goes on to wait for a transfer that has some. -/
theorem grant (h : c.Balanced retries) (hstage : c.stage = .granting n before) :
    Balanced retries { c with reader := c.reader.replenish, stage := .waiting n before } := by
  have hfits := h.stage
  rw [hstage] at hfits
  obtain ⟨hn, hpending⟩ := hfits
  have hidle (ht : c.reader.transfer = none) : c.reader.outstanding = 0 := by
    cases h.reader with
    | idle _ _ _ hout => exact hout hpending.failed hpending.finished
    | going ht' => cases ht.symm.trans ht'
  obtain ⟨t, ht, -⟩ :=
    exists_transfer_replenish hpending.failed hidle hpending.queue hpending.finished
  have hsome : c.reader.replenish.transfer.isSome := Option.isSome_iff_exists.2 ⟨t, ht⟩
  exact ⟨h.reader.replenish, ⟨hn, hpending.replenish, hsome, h.reader.isSupplied_replenish⟩,
    (congrArg (c.restarts + ·) (retriesLeft_replenish _)).trans h.restarts⟩

/-- What a read hears that waits. -/
theorem hears (h : c.Balanced retries) (hstage : c.stage = .waiting n before) :
    n ≠ 0 ∧ before.Pending c.reader ∧ c.reader.IsSupplied ∧
      ∃ t, c.reader.transfer = some t ∧ c.reader.Hears t c.reader.heard := by
  have hfits := h.stage
  rw [hstage] at hfits
  obtain ⟨hn, hpending, hsome, hsupplied⟩ := hfits
  obtain ⟨t, ht⟩ := Option.isSome_iff_exists.1 hsome
  have hheard : c.reader.heard = c.reader.hear t := by simp only [heard, ht]
  rw [hheard]
  exact ⟨hn, hpending, hsupplied, t, ht,
    h.reader.hears ht hpending.failed hpending.finished hpending.queue⟩

/-- A read that hears something ends, or begins its loop anew. -/
theorem go (h : c.Balanced retries) (hstage : c.stage = .waiting n before) :
    (c.go n before c.reader.heard).Balanced retries := by
  obtain ⟨hn, hpending, hsupplied, t, ht, hhears⟩ := h.hears hstage
  generalize c.reader.heard = x at hhears
  cases hhears with
  | chunk hch hne hr hq hleft => exact h.returning_take _ hr hleft n
  | complete hch hr hfinished ht' hq hleft => exact h.returning_take _ hr hleft n
  | restarted hf hr hfailed hfinished hq hposition hleft =>
    refine ⟨hr, ⟨hn, hpending.restarted ht hf hfailed hfinished hq hposition hleft⟩, ?_⟩
    have hrestarts := h.restarts
    simp only [Course.go]
    omega
  | timedOut hch hgo hk => exact h.returning _ h.reader hsupplied rfl
  | failed hf hr ht' hleft =>
    exact h.returning _ hr (fun u hu => by cases ht'.symm.trans hu) hleft

/-- Every act keeps the accounts. -/
theorem act (h : c.Balanced retries) (store : Store σ) (a : Act) :
    (c.act store a).Balanced retries := by
  cases a with
  | work => exact h.work store
  | call n =>
    cases hstage : c.stage with
    | resting =>
      rw [Course.act_call store hstage]
      exact h.call hstage n
    | granting | waiting => simpa only [Course.act, hstage] using h
  | grant =>
    cases hstage : c.stage with
    | granting n before =>
      rw [Course.act_grant store hstage]
      exact h.grant hstage
    | resting | waiting => simpa only [Course.act, hstage] using h
  | hear =>
    cases hstage : c.stage with
    | waiting n before =>
      rw [Course.act_hear store hstage]
      exact h.go hstage
    | resting | granting => simpa only [Course.act, hstage] using h

/-- Every course keeps the accounts. -/
theorem run (h : c.Balanced retries) (store : Store σ) (acts : List Act) :
    (c.run store acts).Balanced retries := by
  induction acts generalizing c with
  | nil => exact h
  | cons a acts ih => exact ih (h.act store a)

end Course.Balanced

/-! ### What the accounts say -/

/-- What the accounts of a reader say at a moment of its course. -/
structure Course.Accounts (store : Store σ) (retries : Nat) (c : Course σ) : Prop where
  /-- As many bytes are counted as queued as are in the queue. -/
  queued : c.reader.queuedBytes = c.reader.queue.flatten.length
  /-- The offset of the task is the position, behind which come the bytes queued and the bytes in
  the channel. -/
  delivered : ∀ t, c.reader.transfer = some t → t.progress.delivered =
    c.reader.position + .ofNat c.reader.queuedBytes +
      .ofNat (t.channel.flatMap Signal.bytes).length
  /-- What is outstanding is the demand in the mailbox of the task, the demand of the task and the
  chunks in the channel. -/
  outstanding : ∀ t, c.reader.transfer = some t → c.reader.outstanding =
    (t.granted.map UInt64.toNat).sum + t.progress.demand.toNat +
      t.channel.countP (!·.isTerminal)
  /-- No more bytes are taken off those queued than there are. -/
  queued_covers : ∀ n, min n c.reader.front.length ≤ c.reader.queuedBytes
  /-- A chunk is offered with demand for it, received while it is outstanding, and no demand is lost
  in counting. -/
  demand_covers : ∀ t, c.reader.transfer = some t →
    (∀ b body, t.phase = .offering b body → 0 < t.progress.demand.toNat) ∧
    (∀ b rest, t.channel = .chunk b :: rest → 0 < c.reader.outstanding) ∧
    t.demandNow.toNat = t.due
  /-- A read that waits for a task with an empty channel has not missed its end: the task goes on or
  has broken down, and it has demand or will find some. -/
  supplied : ∀ n before, c.stage = .waiting n before → ∃ t, c.reader.transfer = some t ∧
    (t.channel = [] → (t.isEnded = false ∨ t.phase = .lost) ∧
      0 < (t.granted.map UInt64.toNat).sum + t.progress.demand.toNat)
  /-- A read that times out, for a task that goes on, leaves the reader and its transfer as they
  are. Since its call it has moved nothing and lost nothing, and what is outstanding has changed
  only if the transfer is another one. -/
  timesOut : ∀ n before t, c.stage = .waiting n before → c.reader.transfer = some t →
    t.channel = [] → t.isEnded = false →
      let d := c.act store .hear
      (∃ e, e.kind = .timeout ∧ d.results = c.results ++ [.error e]) ∧ d.stage = .resting ∧
        d.reader = c.reader ∧ d.outside = c.outside ∧ d.restarts = c.restarts ∧
        c.reader.position = before.position ∧ c.reader.queue = before.queue ∧
        c.reader.queuedBytes = before.queuedBytes ∧
        ∀ t₀, before.transfer = some t₀ → t.progress.delivered = t₀.progress.delivered ∧
          (c.reader.retriesLeft = before.retriesLeft → c.reader.outstanding = before.outstanding)
  /-- A signal that is there makes a read begin its loop anew, for one retry and only where the
  transfer has failed, or end: with the chunk, the completion or an error. -/
  hears : ∀ n before t, c.stage = .waiting n before → c.reader.transfer = some t →
    let d := c.act store .hear
    (t.HasFailed ∧ d.stage = .granting n before ∧ d.results = c.results ∧
      d.restarts = c.restarts + 1 ∧ d.reader.retriesLeft + 1 = c.reader.retriesLeft) ∨
    d.stage = .resting ∧ d.restarts = c.restarts ∧
      ((∃ b rest, t.channel = .chunk b :: rest ∧ b.take n ≠ [] ∧
          d.results = c.results ++ [.ok (b.take n)]) ∨
        (t.channel = [.complete] ∧ d.reader.finished = true ∧ d.results = c.results ++ [.ok []]) ∨
        ∃ e, d.results = c.results ++ [.error e])
  /-- Every new start is one of the retries. -/
  restarts : c.restarts + c.reader.retriesLeft = retries

namespace Course.Balanced

variable {retries n : Nat} {before : Reader} {c : Course σ}

/-- A waiting read whose transfer goes on with an empty channel times out, and nothing has
changed. -/
theorem timesOut (h : c.Balanced retries) (store : Store σ) (hstage : c.stage = .waiting n before)
    (ht : c.reader.transfer = some t) (hch : t.channel = []) (hgo : t.isEnded = false) :
    ∃ e, e.kind = .timeout ∧ c.act store .hear = c.returning (.error e) c.reader := by
  obtain ⟨-, -, -, u, hu, hhears⟩ := h.hears hstage
  obtain rfl := Option.some.inj (ht.symm.trans hu)
  rw [Course.act_hear store hstage]
  generalize c.reader.heard = x at hhears
  cases hhears with
  | timedOut _ _ hk => exact ⟨_, hk, rfl⟩
  | chunk hch' | complete hch' => cases hch.symm.trans hch'
  | restarted hf | failed hf =>
    rcases hf with ⟨e, hch'⟩ | ⟨-, hp⟩
    · cases hch.symm.trans hch'
    · cases hgo.symm.trans (Transfer.isEnded_iff.2 (.inr hp))

/-- The accounts of a reader, at every moment of its course. -/
theorem accounts (h : c.Balanced retries) (store : Store σ) : c.Accounts store retries where
  queued := h.reader.queuedBytes_eq
  delivered t ht := (h.reader.tallies ht).delivered
  outstanding t ht := by
    rw [← (h.reader.tallies ht).credit, Transfer.credit, Transfer.due, Nat.add_comm
      t.progress.demand.toNat]
  queued_covers := min_front_le h.reader.queuedBytes_eq
  demand_covers t ht := by
    have htallies := h.reader.tallies ht
    refine ⟨fun b body hp => (htallies.offering b body hp).2, fun b rest hch => ?_, ?_⟩
    · rw [← htallies.credit, Transfer.credit, hch]
      simp [Signal.isTerminal]
    · have hlt := htallies.due_lt
      have hnow := t.toNat_demandNow
      omega
  supplied n before hstage := by
    obtain ⟨-, hpending, hsupplied, t, ht, -⟩ := h.hears hstage
    have htallies := h.reader.tallies ht
    refine ⟨t, ht, fun hch => ⟨?_, ?_⟩⟩
    · cases hover : t.isEnded with
      | false => exact .inl rfl
      | true => exact .inr (htallies.phase_eq_lost hch hover)
    have hpos := hsupplied t ht hpending.queue
    rw [← htallies.credit, Transfer.credit, hch, Transfer.due] at hpos
    simpa [Nat.add_comm] using hpos
  timesOut n before t hstage ht hch hgo := by
    obtain ⟨-, hpending, -⟩ := h.hears hstage
    obtain ⟨e, hkind, hhear⟩ := h.timesOut store hstage ht hch hgo
    have hbytes : c.reader.queuedBytes = before.queuedBytes := by
      rw [h.reader.queuedBytes_eq, hpending.balanced.queuedBytes_eq, hpending.queue,
        hpending.queue_before]
    rw [hhear]
    refine ⟨⟨e, hkind, rfl⟩, rfl, rfl, rfl, rfl, hpending.position,
      hpending.queue.trans hpending.queue_before.symm, hbytes, fun t₀ ht₀ => ⟨?_, fun hleft => ?_⟩⟩
    · exact hpending.delivered_eq h.reader ht hch ht₀
    · rcases hpending.since t₀ ht₀ with ⟨-, hout, -⟩ | ⟨hlt, -⟩
      · exact hout
      · exact absurd hleft (Nat.ne_of_lt hlt)
  hears n before t hstage ht := by
    obtain ⟨hn, -, -, u, hu, hhears⟩ := h.hears hstage
    obtain rfl := Option.some.inj (ht.symm.trans hu)
    rw [Course.act_hear store hstage]
    generalize c.reader.heard = x at hhears
    cases hhears with
    | @chunk b rest r' hch hne hr hq hleft =>
      refine .inr ⟨rfl, rfl, .inl ⟨b, rest, hch, by simpa [hn] using hne, ?_⟩⟩
      simp [Course.go, Course.returning, Reader.take, front, hq]
    | complete hch hr hfinished ht' hq hleft =>
      refine .inr ⟨rfl, rfl, .inr (.inl ⟨hch, (finished_replenish _).trans hfinished, ?_⟩)⟩
      simp [Course.go, Course.returning, Reader.take, front, hq]
    | restarted hf hr hfailed hfinished hq hposition hleft =>
      exact .inl ⟨hf, rfl, rfl, rfl, hleft⟩
    | timedOut hch hgo hk => exact .inr ⟨rfl, rfl, .inr (.inr ⟨_, rfl⟩)⟩
    | failed hf hr ht' hleft => exact .inr ⟨rfl, rfl, .inr (.inr ⟨_, rfl⟩)⟩
  restarts := h.restarts

end Course.Balanced

/-- The reader of an object, in all its courses: its counts and those of the task of its transfer
fit together, whatever the store makes of its requests, wherever reads time out, and however the
steps of the task come between those of the reads. All sequences of reads are among these
courses. -/
theorem keeps_accounts (location : Location) (settings : Settings.Download) (store : Store σ)
    (s : σ) :
    (∀ acts, ((Course.start location settings s).run store acts).Accounts store
      settings.maxRetries.toNat) ∧
    ∀ sizes, ∃ acts, let c := (Course.start location settings s).run store acts
      c.stage = .resting ∧ (c.reader, c.outside) =
        reads store sizes (ofLocation location settings) s :=
  ⟨fun acts => ((Course.Balanced.start location settings s).run store acts).accounts store,
    fun sizes => Course.exists_run_reads store rfl sizes⟩

/-- A response whose body stalls behind one chunk. -/
def stalledAnswers : List Answer :=
  [.response ⟨some "v1", some 10, [.chunk [1, 2, 3], .stall]⟩]

/-- A course in which two reads share a chunk, and a third one times out while the task waits for
the rest of the body. -/
def stalledCourse : Course (List Answer) :=
  (Course.start ⟨"bucket", "hello"⟩ {} stalledAnswers).run tape
    [.call 2, .grant, .work, .work, .work, .work, .hear, .call 8, .call 8, .grant, .work, .hear]

/-- The chunk that was received is outstanding no more, and the read that timed out has lost
nothing. -/
theorem keeps_accounts_stalled :
    stalledCourse.results.map Except.toOption = [some [1, 2], some [3], none] ∧
    stalledCourse.reader.position = 3 ∧ stalledCourse.reader.outstanding = 15 ∧
    stalledCourse.reader.transfer.map (fun t => (t.progress.delivered, t.due)) = some (3, 15) ∧
    stalledCourse.Accounts tape 5 :=
  ⟨rfl, rfl, rfl, rfl, (keeps_accounts ⟨"bucket", "hello"⟩ {} tape stalledAnswers).1 _⟩

end QueryResults.Download.Reader
