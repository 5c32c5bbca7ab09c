import QueryResults.Download.Reader.Basic

/-!
# What a reader may still receive

A reader can start only so many transfers, each transfer can do only so much, and its channel holds
only so many signals. Waiting for a signal uses up one of the three, or reaches the end.

## Main definitions

* `Reader.Less`: when a reader may receive less than another.
* `Reader.Addressee`: the transfer that a reader grants demand to.

## Main results

* `Reader.replenish_cases`: what it is to grant demand.
* `Reader.less_of_fill`, `Reader.fill_ready`: waiting leaves less to receive.
-/

namespace QueryResults.Download.Reader

/-- How often a transfer may still be started. -/
def startsLeft (r : Reader) : Nat := 2 * r.retriesLeft + if r.transfer.isNone then 1 else 0

/-- What the transfer has left to do, and how many signals lie in its channel. -/
def load (r : Reader) : (Nat × Nat × Nat) × Nat :=
  match r.transfer with
  | none => ((0, 0, 0), 0)
  | some t => (t.measure, t.channel.length)

/-- What a reader may still receive. -/
def supply (r : Reader) : Nat × (Nat × Nat × Nat) × Nat := (r.startsLeft, r.load)

/-- When a reader may receive less than another. -/
def Less (r u : Reader) : Prop :=
  Prod.Lex (· < ·) (Prod.Lex (Prod.Lex (· < ·) (Prod.Lex (· < ·) (· < ·))) (· < ·)) r.supply
    u.supply

/-- The transfer that a reader grants demand to: its own, or the one that it starts. -/
inductive Addressee (r : Reader) (t : Transfer) : Prop
  | current (ht : r.transfer = some t)
  | fresh (hnone : r.transfer = none) (ht : r.restart.transfer = some t)

/-- A reader grants nothing, or a batch to its transfer. -/
theorem replenish_cases (r : Reader) :
    (r.replenish = r ∧
      (r.finished = true ∨ r.failed ≠ none ∨ 0 < r.outstanding ∨ r.queue ≠ [])) ∨
    (r.finished = false ∧ r.failed = none ∧ r.outstanding = 0 ∧ ∃ t, r.Addressee t ∧
      r.replenish =
        { r with transfer := some (t.grant (.ofNat r.batch)), outstanding := r.batch }) := by
  unfold replenish
  split
  · rename_i hstay
    refine .inl ⟨rfl, ?_⟩
    rcases hstay with hfinished | hfailed | hout
    · exact .inl hfinished
    · exact .inr (.inl (Option.isSome_iff_ne_none.1 hfailed))
    · exact .inr (.inr (.inl hout))
  · rename_i hgo
    split
    · rename_i hfull
      exact .inl ⟨rfl, .inr (.inr (.inr hfull.2))⟩
    · simp only [not_or, Bool.not_eq_true, Option.isSome_eq_false_iff, Option.isNone_iff_eq_none,
        Nat.not_lt, Nat.le_zero_eq] at hgo
      refine .inr ⟨hgo.1, hgo.2.1, hgo.2.2, ?_⟩
      cases ht : r.transfer with
      | none => exact ⟨_, .fresh ht rfl, rfl⟩
      | some t => exact ⟨t, .current ht, by simp [ht]⟩

/-- Granting demand changes nothing but the transfer and what is to come of it. -/
theorem exists_replenish_eq (r : Reader) :
    ∃ transfer outstanding, r.replenish = { r with transfer, outstanding } := by
  rcases replenish_cases r with ⟨h, -⟩ | ⟨-, -, -, t, -, h⟩
  · exact ⟨r.transfer, r.outstanding, h⟩
  · exact ⟨_, _, h⟩

theorem queue_replenish (r : Reader) : r.replenish.queue = r.queue := by
  obtain ⟨transfer, outstanding, h⟩ := exists_replenish_eq r
  rw [h]

theorem supply_replenish (r : Reader) : r.replenish.supply = r.supply ∨ Less r.replenish r := by
  rcases replenish_cases r with ⟨h, -⟩ | ⟨-, -, -, t, ht, h⟩
  · exact .inl (by rw [h])
  · rw [h]
    cases ht with
    | current ht =>
      refine .inl ?_
      simp [supply, startsLeft, load, ht, Transfer.grant, Transfer.measure]
    | fresh hnone =>
      refine .inr (.left _ _ ?_)
      simp [startsLeft, hnone]

theorem Less.trans {r u v : Reader} (h : Less r u) (h' : Less u v) : Less r v := by
  simp only [Less, Prod.lex_def, Prod.ext_iff] at *
  omega

theorem less_of_startsLeft {r u : Reader} (h : r.startsLeft < u.startsLeft) : Less r u :=
  .left _ _ h

theorem wf_less : WellFounded Less :=
  InvImage.wf supply
    (Prod.lex Nat.lt_wfRel
      (Prod.lex (Prod.lex Nat.lt_wfRel (Prod.lex Nat.lt_wfRel Nat.lt_wfRel)) Nat.lt_wfRel)).wf

/-- Starting again uses up a retry. -/
theorem startsLeft_of_resume {r r' : Reader} {e : Failure} (h : r.resume e = .restarted r') :
    r'.startsLeft < r.startsLeft := by
  unfold resume at h
  split at h
  · cases h
  · rename_i hr
    cases h
    simp only [not_or] at hr
    simp only [startsLeft, restart, Option.isNone_some, Bool.false_eq_true, ↓reduceIte]
    omega

theorem startsLeft_of_receive {r r' : Reader} {x : Transfer.Receipt}
    (h : r.receive x = .restarted r') : r'.startsLeft < r.startsLeft := by
  unfold receive at h
  split at h
  · cases h
  · exact startsLeft_of_resume h
  · exact startsLeft_of_resume h
  · cases h
  · cases h

/-- Only a chunk or the end makes a reader ready. -/
theorem receive_ready {r r' : Reader} {x : Transfer.Receipt} (h : r.receive x = .ready r') :
    (∃ b, x = .signal (.chunk b) ∧ r'.supply = r.supply) ∨
      r'.finished = true ∧ r'.queue = r.queue := by
  have no (e : Failure) : r.resume e ≠ .ready r' := by
    unfold resume
    split <;> simp
  unfold receive at h
  split at h
  · cases h
  · exact absurd h (no _)
  · exact absurd h (no _)
  · cases h
    exact .inr ⟨rfl, rfl⟩
  · cases h
    exact .inl ⟨_, rfl, rfl⟩

theorem startsLeft_observe {r : Reader} {t t' : Transfer} (ht : r.transfer = some t) :
    ({ r with transfer := some t' }.observe t').startsLeft = r.startsLeft := by
  simp [startsLeft, observe, ht]

/-- A reader whose transfer has less to do and to hand over has less to receive. -/
theorem less_of_transfer {r : Reader} {t t' : Transfer} (ht : r.transfer = some t)
    (h : Transfer.Less t' t) : Less ({ r with transfer := some t' }.observe t') r := by
  have eq : r.load = (t.measure, t.channel.length) := by simp [load, ht]
  unfold Less supply
  rw [startsLeft_observe ht, eq]
  exact .right _ h

theorem less_of_hear_restarted {r r' : Reader} {t t' : Transfer} (ht : r.transfer = some t)
    (h : r.hear t' = .restarted r') : Less r' r := by
  unfold hear at h
  split at h
  · cases h
  · have := startsLeft_of_receive h
    rw [startsLeft_observe ht] at this
    exact less_of_startsLeft this

theorem hear_ready {r r' : Reader} {t t' : Transfer} (ht : r.transfer = some t)
    (hle : t' = t ∨ Transfer.Smaller t' t) (h : r.hear t' = .ready r') :
    Less r' r ∨ r'.finished = true ∧ r'.queue = r.queue := by
  unfold hear at h
  split at h
  · cases h
  · rename_i x u _ hn
    rcases receive_ready h with ⟨b, rfl, eq⟩ | hf
    · have less : Transfer.Less u t := by
        rcases hle with rfl | hs
        · exact Transfer.less_of_next hn
        · exact (Transfer.less_of_next hn).trans (.of_smaller hs)
      refine .inl ?_
      have := less_of_transfer ht less
      unfold Less at *
      rwa [eq]
    · exact .inr hf

/-- What is less than a reader that has granted more demand is less than the reader before. -/
theorem Less.of_replenish {r u : Reader} (h : Less r u.replenish) : Less r u := by
  rcases supply_replenish u with he | hl
  · unfold Less at *
    rwa [← he]
  · exact h.trans hl

/-- Waiting that ends in a new start leaves less to receive. -/
theorem less_of_fill {σ : Type} {store : Store σ} {r r' : Reader} {s s' : σ}
    (h : fill store r s = (.restarted r', s')) : Less r' r := by
  refine .of_replenish ?_
  unfold fill listen at h
  split at h
  · exact less_of_startsLeft (startsLeft_of_receive (Prod.mk.inj h).1)
  · rename_i ht
    exact less_of_hear_restarted ht (Prod.mk.inj h).1

/-- A new start begins with an empty queue. -/
theorem queue_of_fill {σ : Type} {store : Store σ} {r r' : Reader} {s s' : σ}
    (h : fill store r s = (.restarted r', s')) : r'.queue = [] := by
  have resumed {u : Reader} {e : Failure} (h : u.resume e = .restarted r') : r'.queue = [] := by
    unfold resume at h
    split at h
    · cases h
    · cases h
      rfl
  have received {u : Reader} {x : Transfer.Receipt} (h : u.receive x = .restarted r') :
      r'.queue = [] := by
    unfold receive at h
    split at h
    · cases h
    · exact resumed h
    · exact resumed h
    · cases h
    · cases h
  unfold fill listen at h
  split at h
  · exact received (Prod.mk.inj h).1
  · have := (Prod.mk.inj h).1
    unfold hear at this
    split at this
    · exact received this
    · exact received this

/-- Waiting that makes a reader ready leaves less to receive, or has reached the end. -/
theorem fill_ready {σ : Type} {store : Store σ} {r r' : Reader} {s s' : σ}
    (h : fill store r s = (.ready r', s')) :
    Less r' r ∨ r'.finished = true ∧ r'.queue = r.queue := by
  rw [← queue_replenish r]
  unfold fill listen at h
  split at h
  · rcases receive_ready (Prod.mk.inj h).1 with ⟨b, hb, _⟩ | hf
    · cases hb
    · exact .inr hf
  · rename_i t ht
    rcases hear_ready ht
      ((Transfer.settle_eq_or_smaller store t s).imp (fun h => by rw [h]) id)
      (Prod.mk.inj h).1 with hl | hf
    · exact .inl hl.of_replenish
    · exact .inr hf

end QueryResults.Download.Reader
