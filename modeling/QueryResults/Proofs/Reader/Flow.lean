import QueryResults.Proofs.Reader.Sound
import QueryResults.Proofs.Transfer.Flow

/-!
# Readers over a store in good health

The reader of an object in a store in good health never fails and never starts a second transfer.
What it has granted and not yet received is the credit of its transfer, so whenever it waits there
is a signal to come: a chunk or the end.

## Main definitions

* `Reader.Flowing`: a reader that has met no failure and will meet none.

## Main results

* `Reader.Flowing.fill`, `Reader.Flowing.read`: waiting and reading succeed.
* `Reader.keeps_read`: what every request to the store keeps, reading keeps.
* `Reader.carries_feed_whole`: the reader as a feed that never breaks.
-/

namespace QueryResults.Download.Reader

open Store

variable {σ : Type} {store : Store σ} {o : Object} {location : Location} {n : Nat} {r r' : Reader}

/-- A reader that has met no failure and will meet none. -/
structure Flowing (o : Object) (r : Reader) : Prop where
  failed : r.failed = none
  flow : ∀ t, r.transfer = some t → t.Flowing o r.outstanding
  idle : r.transfer = none → r.finished = false → r.outstanding = 0 ∧ r.etag = none

theorem toNat_batch (r : Reader) : (UInt64.ofNat r.batch).toNat = r.batch :=
  UInt64.toNat_ofNat_of_lt' (Fetcher.capacity_lt r.location r.settings)

/-- A reader that has nothing to hand out and is not finished grants chunks, unless some are to
come. -/
theorem exists_transfer_replenish (hfailed : r.failed = none)
    (hidle : r.transfer = none → r.outstanding = 0) (hq : r.queue = [])
    (hf : r.finished = false) :
    ∃ t, r.replenish.transfer = some t ∧ 0 < r.replenish.outstanding := by
  rcases replenish_cases r with ⟨he, hwhy⟩ | ⟨-, -, -, t, -, he⟩
  · have hout : 0 < r.outstanding := by simpa [hf, hfailed, hq] using hwhy
    rw [he]
    cases ht : r.transfer with
    | none => exact absurd (hidle ht) (Nat.ne_of_gt hout)
    | some t => exact ⟨t, rfl, hout⟩
  · rw [he]
    exact ⟨_, rfl, Nat.le_max_right _ _⟩

namespace Flowing

theorem ofLocation (o : Object) (location : Location) (settings : Settings.Download) :
    Flowing o (.ofLocation location settings) where
  failed := rfl
  flow _ ht := nomatch ht
  idle _ _ := ⟨rfl, rfl⟩

/-- A reader that holds another queue, at another position. -/
theorem advance (h : Flowing o r) (size : Nat) : Flowing o (r.advance size) where
  failed := h.failed
  flow := h.flow
  idle := h.idle

/-- Granting more chunks gives the transfer as much credit as is recorded. -/
theorem replenish (hsound : Sound o location n r) (h : Flowing o r) : Flowing o r.replenish := by
  rcases replenish_cases r with ⟨he, -⟩ | ⟨hf, -, hzero, t, ht, he⟩
  · rwa [he]
  · rw [he]
    refine ⟨h.failed, fun u hu => ?_, nofun⟩
    cases hu
    cases ht with
    | current ht =>
      have hgrant := (hzero ▸ h.flow t ht).grant (n := .ofNat r.batch)
        (by rw [Nat.zero_add]; exact UInt64.toNat_lt _)
      rwa [Nat.zero_add, toNat_batch] at hgrant
    | fresh hnone ht =>
      cases ht
      have hstart : Transfer.Flowing o (UInt64.ofNat r.batch).toNat
          ((Transfer.start ((Fetcher.ofSettings r.location r.settings).withRetries 0).plan
            r.position r.etag).grant (.ofNat r.batch)) :=
        .start (hsound.position ▸ hsound.le)
          (fun tag htag => nomatch (h.idle hnone hf).2.symm.trans htag) (Nat.le_max_right _ _)
      rwa [toNat_batch] at hstart

/-- Waiting for a signal that is no failure. -/
theorem hear {t : Transfer} (h : Flowing o r) (ht : r.transfer = some t)
    (hpos : 0 < r.outstanding) {s : σ} (hrest : t.step store s = none) :
    ∃ r', r.hear t = .ready r' ∧ Flowing o r' := by
  have hflow := h.flow t ht
  obtain ⟨x, u, hx, hok⟩ := hflow.next hpos hrest
  unfold Reader.hear
  rw [hx]
  cases x with
  | failed e => exact absurd rfl (hok e)
  | complete =>
    refine ⟨_, rfl, ?_⟩
    exact
      { failed := h.failed
        flow := fun _ hv => nomatch hv
        idle := fun _ hf' => nomatch hf' }
  | chunk b =>
    refine ⟨_, rfl, ?_⟩
    exact
      { failed := h.failed
        flow := fun v hv => by
          cases hv
          exact (hflow.of_next hx).2
        idle := nofun }

theorem fill (hs : store.Gives location o) (hsound : Sound o location n r) (h : Flowing o r)
    (hq : r.queue = []) (hf : r.finished = false) (s : σ) :
    ∃ r', (Reader.fill store r s).1 = .ready r' ∧ Flowing o r' := by
  obtain ⟨t, ht, hpos⟩ :=
    exists_transfer_replenish h.failed (fun ht => (h.idle ht hf).1) hq hf
  have hr := h.replenish hsound
  obtain ⟨-, hl, -⟩ := hsound.replenish.transfer t ht
  have hsettled : Flowing o { r.replenish with transfer := some (t.settle store s).1 } :=
    { failed := hr.failed
      flow := fun v hv => by
        cases hv
        exact (hr.flow t ht).settle (hl ▸ hs) s
      idle := nofun }
  unfold Reader.fill listen
  rw [ht]
  exact hsettled.hear rfl hpos (Transfer.step_settle store t s)

theorem refill (hs : store.Gives location o) (hsound : Sound o location n r) (h : Flowing o r)
    (hq : r.queue = []) (hf : r.finished = false) (s : σ) :
    ∃ r' s', Reader.refill store r s = (.ok (), r', s') ∧ Flowing o r' := by
  obtain ⟨r', hr', hflow⟩ := h.fill hs hsound hq hf s
  refine ⟨r', (Reader.fill store r s).2, ?_, hflow⟩
  have hfill : Reader.fill store r s = (.ready r', (Reader.fill store r s).2) := Prod.ext hr' rfl
  rw [Reader.refill.eq_def]
  split <;> rename_i hf <;> cases hf.symm.trans hfill
  rfl

theorem take {size : Nat} (hsound : Sound o location n r) (h : Flowing o r) :
    Flowing o (r.take size).2 :=
  (h.advance size).replenish (hsound.advance size).2

/-- A read succeeds. -/
theorem read (hs : store.Gives location o) (hsound : Sound o location n r) (h : Flowing o r)
    (size : Nat) (s : σ) :
    ∃ bytes r' s', Reader.read store size r s = (.ok bytes, r', s') ∧ Flowing o r' := by
  unfold Reader.read
  split
  · exact ⟨_, _, _, rfl, h⟩
  · rw [h.failed]
    simp only
    split
    · rename_i hwait
      rw [Bool.and_eq_true, Bool.not_eq_true', List.isEmpty_iff] at hwait
      obtain ⟨r', s', hr, hflow⟩ := h.refill hs hsound hwait.1 hwait.2 s
      have hsound' := (hsound.refill hs.serves hwait.2 s).1
      rw [hr] at hsound' ⊢
      exact ⟨_, _, _, rfl, hflow.take hsound'⟩
    · exact ⟨_, _, _, rfl, h.take hsound⟩

end Flowing

/-! ### What is kept -/

variable {P : σ → Prop} {s : σ}

/-- Waiting for a signal keeps what every request keeps. -/
theorem keeps_fill (hk : store.Keeps P) (r : Reader) (h : P s) : P (fill store r s).2 := by
  unfold fill listen
  split
  · exact h
  · exact Transfer.keeps_settle hk _ h

theorem keeps_refill (hk : store.Keeps P) (r : Reader) (h : P s) : P (refill store r s).2.2 := by
  have hfill (r : Reader) {s : σ} (h : P s) {x : Filled Reader × σ} (hx : fill store r s = x) :
      P x.2 := hx ▸ keeps_fill hk r h
  fun_induction refill store r s with
  | case1 r s r' s' hf => exact hfill r h hf
  | case2 r s e r' s' hf => exact hfill r h hf
  | case3 r s r' s' hf ih => exact ih (hfill r h hf)

theorem keeps_read (hk : store.Keeps P) (size : Nat) (r : Reader) (h : P s) :
    P (read store size r s).2.2 := by
  unfold read
  split
  · exact h
  · split
    · exact h
    · split
      · have hrefill := keeps_refill hk r h
        split <;> rename_i hr <;> rwa [hr] at hrefill
      · exact h

/-- Over a store in good health, a reader is a feed of the bytes from its position on that never
breaks. -/
theorem carries_feed_whole {size : Nat} (hs : store.Gives location o) (hk : store.Keeps P)
    (hsize : 0 < size) :
    (feed store size).Carries
      (fun bytes (v : Reader × σ) => (∃ n, v.1.Sound o location n ∧ bytes = o.bytes.drop n) ∧
        v.1.Flowing o ∧ P v.2)
      fun _ => False := by
  refine (carries_feed hs.serves hsize).keeping ?_ ?_
  · rintro bytes ⟨r, s⟩ ⟨n, hsound, -⟩ ⟨hflow, hp⟩
    obtain ⟨bytes', r', s', hr, hflow'⟩ := hflow.read hs hsound size s
    have hp' := keeps_read hk size r hp
    rw [hr] at hp'
    simp only [feed, hr]
    cases bytes' with
    | nil => exact ⟨hflow', hp'⟩
    | cons b bs => exact ⟨hflow', hp'⟩
  · rintro bytes f ⟨r, s⟩ v ⟨n, hsound, -⟩ ⟨hflow, -⟩ hbroken
    obtain ⟨bytes', r', s', hr, -⟩ := hflow.read hs hsound size s
    simp only [feed, hr] at hbroken
    cases bytes' with
    | nil => cases hbroken
    | cons b bs => cases hbroken

end QueryResults.Download.Reader
