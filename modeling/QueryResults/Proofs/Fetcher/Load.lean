import QueryResults.Proofs.Fetcher.Collect
import QueryResults.Proofs.Transfer.Flow

/-!
# Loading an object within a limit

Whoever waits for a whole object within a limit looks at the download again and again. He gives up
as soon as he finds that he is to stop, or that the limit is exceeded, wherever the download stands;
it is dropped there, and no request follows. What he receives in time is no other than what he would
have received without a limit.

## Main definitions

* `Collected.within`: what a limit leaves of collecting a transfer.

## Main results

* `Fetcher.fetchWithin_eq_interrupted_iff`: the wait is interrupted if and only if it is to be
  stopped when it ends.
* `Fetcher.fetchWithin_eq_within`: an undisturbed wait ends with the whole download if that takes
  less than the limit, and too late otherwise.
* `Fetcher.fetchWithin_eq_ok`: what is received is exact.
* `Fetcher.fetchWithin_whole`: from a store in good health the whole object is received.
* `Fetcher.keeps_fetchWithin`: what is kept meanwhile.
-/

namespace QueryResults.Download

open Store

variable {σ : Type} {store : Store σ} {stops : σ → Bool} {limit rest : Duration} {o : Object}
  {s s' : σ} {P : σ → Prop}

/-! ### A single look -/

@[simp]
theorem look_state (store : Store σ) (stops : σ → Bool) (limit : Duration) (s : σ) :
    (look store stops limit s).2 = (store.lapse s).2 := by
  unfold look
  simp only
  split
  · rfl
  · split <;> rfl

/-- A look keeps what every lapse of time keeps. -/
theorem keeps_look {x : Except Loaded Duration} (hk : store.Keeps P) (hs : P s)
    (h : look store stops limit s = (x, s')) : P s' := by
  have hstate : s' = (store.lapse s).2 := by rw [← look_state, h]
  exact hstate ▸ hk.lapse s hs

/-- A wait goes on only if it is not to be stopped. -/
theorem stops_of_look_ok (h : look store stops limit s = (.ok rest, s')) : stops s' = false := by
  unfold look at h
  simp only at h
  split at h
  · cases h
  · rename_i hstops
    split at h <;> cases h
    exact Bool.eq_false_iff.2 hstops

/-- A wait that is given up was to be stopped, or has taken too long. -/
theorem of_look_error {cut : Loaded} (h : look store stops limit s = (.error cut, s')) :
    cut = .interrupted ∧ stops s' = true ∨ cut = .timedOut ∧ stops s' = false := by
  unfold look at h
  simp only at h
  split at h
  · rename_i hstops
    cases h
    exact .inl ⟨rfl, hstops⟩
  · rename_i hstops
    split at h <;> cases h
    exact .inr ⟨rfl, Bool.eq_false_iff.2 hstops⟩

/-- A wait that is not to be stopped goes on with the whole limit if no time has passed. -/
theorem look_of_zero (hspan : (store.lapse s).1 = .zero)
    (hstops : stops (store.lapse s).2 = false) :
    look store stops limit s = (.ok limit, (store.lapse s).2) := by
  unfold look
  simp only [hspan, hstops, Bool.false_eq_true, if_false]
  rfl

namespace Transfer

variable {t : Transfer} {before : List (List UInt8)}

/-- Gathering is interrupted if and only if it is to be stopped when it ends. -/
theorem gather_eq_interrupted_iff :
    (t.gather store stops limit before s).1 = .interrupted ↔
      stops (t.gather store stops limit before s).2 = true := by
  fun_induction gather store stops limit before t s with
  | case1 limit before t s cut s' hlook =>
    rcases of_look_error hlook with ⟨rfl, hstops⟩ | ⟨rfl, hstops⟩ <;> simp [hstops]
  | case2 limit before t s rest s' hlook bytes t' hn rested ih => exact ih
  | case3 limit before t s rest s' hlook t' hn
  | case4 limit before t s rest s' hlook e t' hn
  | case5 limit before t s rest s' hlook t' hn location
  | case6 limit before t s rest s' hlook t' hn hp
  | case7 limit before t s rest s' hlook t' hn left hp hle => simp [stops_of_look_ok hlook]
  | case8 limit before t s rest s' hlook t' hn left hp hle woken ih => exact ih

/-- Gathering keeps what every request and every lapse of time keeps. -/
theorem keeps_gather (hk : store.Keeps P) (hs : P s) :
    P (t.gather store stops limit before s).2 := by
  fun_induction gather store stops limit before t s with
  | case1 limit before t s cut s' hlook => exact keeps_look hk hs hlook
  | case2 limit before t s rest s' hlook bytes t' hn rested ih =>
    exact ih (keeps_settle hk _ (keeps_look hk hs hlook))
  | case3 limit before t s rest s' hlook t' hn
  | case4 limit before t s rest s' hlook e t' hn
  | case5 limit before t s rest s' hlook t' hn location
  | case6 limit before t s rest s' hlook t' hn hp
  | case7 limit before t s rest s' hlook t' hn left hp hle => exact keeps_look hk hs hlook
  | case8 limit before t s rest s' hlook t' hn left hp hle woken ih =>
    exact ih (keeps_settle hk _ (keeps_look hk hs hlook))

/-- What is gathered of a sound transfer is what was pending. -/
theorem gather_eq_ok {bytes : List UInt8} (hs : store.Serves t.plan.location o) (h : Sound o t)
    (hb : (t.gather store stops limit before s).1 = .received (.ok bytes)) :
    bytes = before.reverse.flatten ++ t.pending o := by
  fun_induction gather store stops limit before t s with
  | case1 limit before t s cut s' hlook =>
    rcases of_look_error hlook with ⟨rfl, -⟩ | ⟨rfl, -⟩ <;> cases hb
  | case2 limit before t s rest s' hlook chunk t' hn rested ih =>
    have hgrant : Sound o (t'.grant 1) := { h.next hn with }
    have hplan : (t'.grant 1).plan = t.plan := (next_frame hn).1
    obtain ⟨hrest, hpend, hplan'⟩ := hgrant.settle (hplan ▸ hs) s'
    rw [ih (hplan' ▸ hplan ▸ hs) hrest hb, hpend, pending_of_next hn]
    simp [Signal.bytes, pending, grant]
  | case3 limit before t s rest s' hlook t' hn =>
    cases hb
    rw [h.pending_of_next_complete hn, List.append_nil]
  | case4 | case5 | case6 | case7 => cases hb
  | case8 limit before t s rest s' hlook t' hn left hp hle woken ih =>
    obtain ⟨hwake, hpend, hplan⟩ := h.wake hs hp s'
    rw [ih (hplan ▸ hs) hwake hb, hpend]

/-- A transfer that is flowing is gathered without a failure and without a pause, unless the wait is
to be stopped. -/
theorem Flowing.gather {credit : Nat} (limit : Duration) (before : List (List UInt8))
    (hs : store.Gives t.plan.location o) (hk : store.Keeps fun v => stops v = false)
    (hstops : stops s = false) (hpos : 0 < credit) (h : Flowing o credit t)
    (hrest : t.step store s = none) :
    (t.gather store stops limit before s).1 =
      .received (.ok (before.reverse.flatten ++ t.pending o)) := by
  obtain ⟨x, u, hx, hok⟩ := h.next hpos hrest
  have hlooked {limit : Duration} {s : σ} (hstops : stops s = false) :
      look store stops limit s = (.ok limit, (store.lapse s).2) :=
    look_of_zero (hs.lapse s) (hk.lapse s hstops)
  fun_induction Transfer.gather store stops limit before t s generalizing x u with
  | case1 limit before t s cut s' hlook => cases hlook.symm.trans (hlooked hstops)
  | case2 limit before t s rest s' hlook chunk t' hn rested ih =>
    cases hlook.symm.trans (hlooked hstops)
    have hlapsed := hk.lapse s hstops
    obtain ⟨-, hflow⟩ := h.of_next hn
    have hcredit : credit - 1 + (1 : UInt64).toNat = credit := Nat.sub_add_cancel hpos
    have hgrant : Flowing o credit (t'.grant 1) :=
      hcredit ▸ hflow.grant (hcredit.symm ▸ h.steady.credit_lt)
    have hplan : (t'.grant 1).plan = t.plan := (next_frame hn).1
    obtain ⟨-, hpend, hplan'⟩ := hgrant.sound.settle (hplan ▸ hs.serves) (store.lapse s).2
    have hrested : Flowing o credit rested.1 := hgrant.settle (hplan ▸ hs) (store.lapse s).2
    obtain ⟨y, v, hy, hok'⟩ := hrested.next hpos (step_settle _ _ _)
    have hall : before.reverse.flatten ++ t.pending o =
        (chunk :: before).reverse.flatten ++ rested.1.pending o := by
      rw [show rested.1.pending o = t'.pending o from hpend, pending_of_next hn]
      simp [Signal.bytes]
    rw [hall]
    exact ih (hplan' ▸ hplan ▸ hs) (keeps_settle hk _ hlapsed) hrested (step_settle _ _ _) y v hy
      hok'
  | case3 limit before t s rest s' hlook t' hn =>
    rw [h.sound.pending_of_next_complete hn, List.append_nil]
  | case4 limit before t s rest s' hlook e t' hn =>
    cases hn.symm.trans hx
    exact absurd rfl (hok e)
  | case5 limit before t s rest s' hlook t' hn location => cases hn.symm.trans hx
  | case6 limit before t s rest s' hlook t' hn hp => cases hn.symm.trans hx
  | case7 limit before t s rest s' hlook t' hn left hp hle => cases hn.symm.trans hx
  | case8 limit before t s rest s' hlook t' hn left hp hle woken ih => cases hn.symm.trans hx

end Transfer

/-! ### With and without a limit -/

/-- What a limit leaves of collecting a transfer: all of it if that takes less time, and otherwise
nothing. -/
def Collected.within (limit : Duration) (c : Collected) : Loaded :=
  match c.result with
  | some result => if c.span.nanos < limit.nanos then .received result else .timedOut
  | none => .timedOut

/-- With a longer limit as much more time may be taken. -/
theorem Collected.within_add {left : Duration} (hlt : left.nanos < limit.nanos) (c : Collected) :
    Collected.within limit { c with span := ⟨left.nanos + c.span.nanos⟩ } =
      c.within ⟨limit.nanos - left.nanos⟩ := by
  unfold Collected.within
  cases c.result with
  | none => rfl
  | some result =>
    have hiff : left.nanos + c.span.nanos < limit.nanos ↔
        c.span.nanos < limit.nanos - left.nanos := by omega
    simp only [hiff]

/-- Gathering that nothing disturbs is collecting within the limit. -/
theorem Transfer.gather_eq_within (hlapse : ∀ s, store.lapse s = (.zero, s))
    (hstops : ∀ s, stops s = false) (hpos : 0 < limit.nanos) (before : List (List UInt8))
    (t : Transfer) (s : σ) :
    (t.gather store stops limit before s).1 = (t.collect store before s).1.within limit := by
  have hlooked (limit : Duration) (s : σ) : look store stops limit s = (.ok limit, s) := by
    rw [look_of_zero (by rw [hlapse]) (hstops _), hlapse]
  have hdone {result : Except Failure (List UInt8)} {limit : Duration} (h : 0 < limit.nanos) :
      (⟨some result, .zero⟩ : Collected).within limit = .received result := if_pos h
  fun_induction Transfer.gather store stops limit before t s with
  | case1 limit before t s cut s' hlook => cases hlook.symm.trans (hlooked limit s)
  | case2 limit before t s rest s' hlook chunk t' hn rested ih =>
    cases hlook.symm.trans (hlooked limit s)
    rw [ih hpos, collect_of_chunk hn]
  | case3 limit before t s rest s' hlook t' hn
  | case4 limit before t s rest s' hlook e t' hn
  | case5 limit before t s rest s' hlook t' hn location =>
    rw [collect.eq_def]
    split <;> rename_i hn' <;> cases hn'.symm.trans hn
    exact (hdone hpos).symm
  | case6 limit before t s rest s' hlook t' hn hp =>
    rw [collect.eq_def]
    split <;> rename_i hn' <;> cases hn'.symm.trans hn
    split
    · rfl
    · rename_i hp'
      cases hp'.symm.trans hp
  | case7 limit before t s rest s' hlook t' hn left hp hle =>
    cases hlook.symm.trans (hlooked limit s)
    rw [collect_of_notYet hn hp]
    unfold Collected.within
    split
    · rw [if_neg (by simp only; omega)]
    · rfl
  | case8 limit before t s rest s' hlook t' hn left hp hle woken ih =>
    cases hlook.symm.trans (hlooked limit s)
    rw [collect_of_notYet hn hp, Collected.within_add (Nat.lt_of_not_le hle)]
    exact ih (Nat.sub_pos_of_lt (Nat.lt_of_not_le hle))

namespace Fetcher

variable {f : Fetcher}

/-- A limited wait is interrupted if and only if it is to be stopped when it ends. -/
theorem fetchWithin_eq_interrupted_iff :
    (f.fetchWithin store stops limit s).1 = .interrupted ↔
      stops (f.fetchWithin store stops limit s).2.2 = true := by
  unfold fetchWithin
  split
  · rename_i hlook
    rcases of_look_error hlook with ⟨rfl, hstops⟩ | ⟨rfl, hstops⟩ <;> simp [hstops]
  · rename_i hlook
    split
    · simp [stops_of_look_ok hlook]
    · exact Transfer.gather_eq_interrupted_iff

/-- A limited wait keeps what every request and every lapse of time keeps. -/
theorem keeps_fetchWithin (hk : store.Keeps P) (stops : σ → Bool) (limit : Duration) (f : Fetcher)
    (hs : P s) : P (f.fetchWithin store stops limit s).2.2 := by
  unfold fetchWithin
  split
  · rename_i hlook
    exact keeps_look hk hs hlook
  · rename_i hlook
    have hkept := keeps_look hk hs hlook
    split
    · exact hkept
    · exact Transfer.keeps_gather hk (Transfer.keeps_settle hk _ hkept)

/-- What is received within a limit is the object from the offset on. -/
theorem fetchWithin_eq_ok {bytes : List UInt8} (hs : store.Serves f.plan.location o)
    (hle : f.offset.toNat ≤ o.bytes.length)
    (hb : (f.fetchWithin store stops limit s).1 = .received (.ok bytes)) :
    bytes = o.bytes.drop f.offset.toNat := by
  unfold fetchWithin subscribe at hb
  split at hb
  · rename_i hlook
    rcases of_look_error hlook with ⟨rfl, -⟩ | ⟨rfl, -⟩ <;> cases hb
  · rename_i s' hlook
    split at hb
    · rename_i hsub
      split at hsub <;> cases hsub
      cases hb
    · rename_i hsub
      split at hsub <;> cases hsub
      have hstart : Transfer.Sound o ((Transfer.start f.plan f.offset f.etag).grant
          (.ofNat f.plan.capacity)) := { Transfer.Sound.start hle with }
      obtain ⟨hrest, hpend, hplan⟩ := hstart.settle hs s'
      rw [Transfer.gather_eq_ok (hplan ▸ hs) hrest hb, hpend]
      rfl

/-- From a store in good health the whole of a download is received, unless the wait is to be
stopped. -/
theorem fetchWithin_whole (limit : Duration) (hsub : f.subscribed = false)
    (hs : store.Gives f.plan.location o) (hle : f.offset.toNat ≤ o.bytes.length)
    (htag : ∀ tag, f.etag = some tag → tag = o.etag) (hpos : 0 < f.plan.capacity)
    (hlt : f.plan.capacity < UInt64.size) (hk : store.Keeps fun v => stops v = false)
    (hstops : stops s = false) :
    (f.fetchWithin store stops limit s).1 = .received (.ok (o.bytes.drop f.offset.toNat)) := by
  have hn : (UInt64.ofNat f.plan.capacity).toNat = f.plan.capacity :=
    UInt64.toNat_ofNat_of_lt' hlt
  have hstart : Transfer.Flowing o (UInt64.ofNat f.plan.capacity).toNat
      ((Transfer.start f.plan f.offset f.etag).grant (.ofNat f.plan.capacity)) :=
    .start hle htag hpos
  have hlapsed := hk.lapse s hstops
  obtain ⟨-, hpend, hplan⟩ := hstart.sound.settle hs.serves (store.lapse s).2
  simp only [fetchWithin, look_of_zero (hs.lapse s) hlapsed, subscribe, hsub]
  have hend := (hstart.settle hs (store.lapse s).2).gather limit [] (hplan ▸ hs) hk
    (Transfer.keeps_settle hk _ hlapsed) (hn.symm ▸ hpos) (Transfer.step_settle _ _ _)
  rw [hpend] at hend
  exact hend

/-- A limited wait that nothing disturbs ends with the whole download if that takes less than the
limit, and too late otherwise. -/
theorem fetchWithin_eq_within (hlapse : ∀ s, store.lapse s = (.zero, s))
    (hstops : ∀ s, stops s = false) (hpos : 0 < limit.nanos) (f : Fetcher) (s : σ) :
    (f.fetchWithin store stops limit s).1 = (f.fetchAll store s).1.within limit := by
  have hlook : look store stops limit s = (.ok limit, s) := by
    rw [look_of_zero (by rw [hlapse]) (hstops _), hlapse]
  unfold fetchWithin fetchAll
  simp only [hlook]
  split
  · exact (if_pos hpos).symm
  · exact Transfer.gather_eq_within hlapse hstops hpos [] _ _

end Fetcher

end QueryResults.Download
