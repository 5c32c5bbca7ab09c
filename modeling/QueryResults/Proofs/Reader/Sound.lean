import QueryResults.Download.Reader.Read
import QueryResults.Proofs.Feed.Content
import QueryResults.Proofs.Fetcher.Collect

/-!
# Readers of an unchanging object

While a store serves an object, the reader of it hands out the bytes of the object one after the
other, whatever happens to its transfers. What it holds at a position is known: the queue and what
its transfer still delivers make up the object from there on. A transfer that fails takes the queue
with it and the next one starts at the position again; a read that times out changes nothing that
counts. So a read hands out bytes that stand at the position, and none only at the end.

## Main definitions

* `Reader.Sound`: the invariant, at a position.

## Main results

* `Reader.Sound.refill`, `Reader.Sound.read`: what waiting and reading keep.
* `Reader.carries_feed`: the reader as a feed of the bytes from its position on.
-/

namespace QueryResults.Download.Reader

open Store

variable {σ : Type} {store : Store σ} {o : Object} {location : Location} {n : Nat}
  {r r' : Reader} {t : Transfer}

/-- The reader of an unchanging object, after it has handed out `n` bytes. -/
structure Sound (o : Object) (location : Location) (n : Nat) (r : Reader) : Prop where
  location_eq : r.location = location
  position : r.position.toNat = n
  le : n ≤ o.bytes.length
  transfer : ∀ t, r.transfer = some t → t.Sound o ∧ t.plan.location = location ∧
    r.queue.flatten ++ t.pending o = o.bytes.drop n
  finished : r.finished = true → r.queue.flatten = o.bytes.drop n
  idle : r.transfer = none → r.finished = false → r.queue = []
  chunks : [] ∉ r.queue

theorem finished_replenish (r : Reader) : r.replenish.finished = r.finished := by
  obtain ⟨transfer, outstanding, h⟩ := exists_replenish_eq r
  rw [h]

theorem failed_replenish (r : Reader) : r.replenish.failed = r.failed := by
  obtain ⟨transfer, outstanding, h⟩ := exists_replenish_eq r
  rw [h]

theorem retriesLeft_replenish (r : Reader) : r.replenish.retriesLeft = r.retriesLeft := by
  obtain ⟨transfer, outstanding, h⟩ := exists_replenish_eq r
  rw [h]

namespace Sound

theorem ofLocation (o : Object) (location : Location) (settings : Settings.Download) :
    Sound o location 0 (.ofLocation location settings) where
  location_eq := rfl
  position := rfl
  le := Nat.zero_le _
  transfer _ ht := nomatch ht
  finished hf := nomatch hf
  idle _ _ := rfl
  chunks := nofun

/-- With an empty queue, a new transfer starts at the position. -/
theorem restart (h : Sound o location n r) (hq : r.queue = []) (hf : r.finished = false) :
    Sound o location n r.restart where
  location_eq := h.location_eq
  position := h.position
  le := h.le
  transfer t ht := by
    cases ht
    refine ⟨.start (h.position ▸ h.le), h.location_eq, ?_⟩
    rw [Transfer.pending_start, h.position]
    simp [Reader.restart, hq]
  finished hf' := nomatch hf.symm.trans hf'
  idle ht := nomatch ht
  chunks := h.chunks

theorem grant (h : Sound o location n r) (ht : r.transfer = some t) (k : UInt64)
    (outstanding : Nat) :
    Sound o location n { r with transfer := some (t.grant k), outstanding } where
  location_eq := h.location_eq
  position := h.position
  le := h.le
  transfer u hu := by
    cases hu
    obtain ⟨hs, hl, hp⟩ := h.transfer t ht
    exact ⟨{ hs with }, hl, hp⟩
  finished := h.finished
  idle hu := nomatch hu
  chunks := h.chunks

theorem replenish (h : Sound o location n r) : Sound o location n r.replenish := by
  rcases replenish_cases r with ⟨he, -⟩ | ⟨hfinished, -, -, t, ht, he⟩
  · rwa [he]
  · rw [he]
    cases ht with
    | current ht => exact h.grant ht _ _
    | fresh hnone ht => exact (h.restart (h.idle hnone hfinished) hfinished).grant ht _ _

/-- Giving up drops what is queued, and the position stays. -/
theorem cleared (h : Sound o location n r) (hf : r.finished = false) :
    Sound o location n { r with transfer := none, queue := [], queuedBytes := 0 } where
  location_eq := h.location_eq
  position := h.position
  le := h.le
  transfer _ ht := nomatch ht
  finished hf' := nomatch hf.symm.trans hf'
  idle _ _ := rfl
  chunks := nofun

end Sound

/-- What waiting has come to, for the reader of an unchanging object that is not finished. -/
def Filled.Sound (o : Object) (location : Location) (n : Nat) : Filled Reader → Prop
  | ready r => r.Sound o location n ∧ (r.queue = [] → r.finished = true)
  | restarted r => r.Sound o location n ∧ r.finished = false
  | failed _ r => r.Sound o location n

namespace Sound

theorem resume (h : Sound o location n r) (hf : r.finished = false) (e : Failure) :
    (r.resume e).Sound o location n := by
  unfold Reader.resume
  split
  · exact { h.cleared hf with }
  · exact ⟨Sound.restart (r := { r with
      transfer := none, queue := [], queuedBytes := 0, retriesLeft := r.retriesLeft - 1,
      failures := r.failures ++ [e] }) { h.cleared hf with } rfl hf, hf⟩

/-- The transfer has gone on, and what it has learned is noted. -/
theorem observe {u : Transfer} (h : Sound o location n r) (hu : u.Sound o)
    (hl : u.plan.location = location) (hp : r.queue.flatten ++ u.pending o = o.bytes.drop n) :
    Sound o location n (Reader.observe { r with transfer := some u } u) where
  location_eq := h.location_eq
  position := h.position
  le := h.le
  transfer v hv := by
    cases hv
    exact ⟨hu, hl, hp⟩
  finished := h.finished
  idle hv := nomatch hv
  chunks := h.chunks

/-- The next signal of the transfer is taken into account. -/
theorem hear (h : Sound o location n r) (hf : r.finished = false) (ht : r.transfer = some t) :
    (r.hear t).Sound o location n := by
  obtain ⟨hs, hl, hp⟩ := h.transfer t ht
  unfold Reader.hear
  split
  · rename_i u hn
    obtain ⟨closed, rfl⟩ := Transfer.next_eq_of_not_signal hn (fun _ he => by cases he)
    exact { h.observe (hs.next hn) hl hp with }
  · rename_i x u hx hn
    cases x with
    | notYet => exact (hx rfl).elim
    | signal x =>
      obtain ⟨rest, hc, hu⟩ := Transfer.next_eq_signal hn
      have hpend := Transfer.pending_of_next (o := o) hn
      have hlocation : u.plan.location = location := by
        rw [hu]
        exact hl
      cases x with
      | failed e =>
        exact (h.observe (hs.next hn) hlocation (by rw [← hp, hpend]; rfl)).resume hf _
      | complete =>
        have hdone : r.queue.flatten = o.bytes.drop n := by
          rw [← hp, hs.pending_of_next_complete hn, List.append_nil]
        exact ⟨{ h with
          transfer := fun _ hv => by cases hv
          finished := fun _ => hdone
          idle := fun _ hf' => by cases hf' }, fun _ => rfl⟩
      | chunk b =>
        have hb : b ≠ [] := by
          rintro rfl
          exact hs.chunks (hc ▸ List.mem_cons_self)
        refine ⟨?_, fun hq => absurd (List.append_eq_nil_iff.1 hq).2 (List.cons_ne_nil _ _)⟩
        exact
          { h with
            transfer := fun v hv => by
              cases hv
              refine ⟨hs.next hn, hlocation, ?_⟩
              rw [← hp, hpend]
              simp [Reader.observe, Signal.bytes]
            finished := fun hf' => by cases hf.symm.trans hf'
            idle := fun hv => by cases hv
            chunks := by
              intro hm
              rcases List.mem_append.1 hm with hm | hm
              · exact h.chunks hm
              · exact hb (List.mem_singleton.1 hm).symm }
    | _ =>
      obtain ⟨closed, rfl⟩ := Transfer.next_eq_of_not_signal hn (fun _ he => by cases he)
      exact (h.observe (hs.next hn) hl hp).resume hf _

/-- Waiting for one signal. -/
theorem fill (hs : store.Serves location o) (h : Sound o location n r) (hf : r.finished = false)
    (s : σ) : (Reader.fill store r s).1.Sound o location n := by
  have hr := h.replenish
  have hf' : r.replenish.finished = false := (finished_replenish r).trans hf
  unfold Reader.fill listen
  split
  · exact hr.resume hf' _
  · rename_i t ht
    obtain ⟨ht', hl, hp⟩ := hr.transfer t ht
    obtain ⟨hsettle, hpend, hplan⟩ := ht'.settle (hl ▸ hs) s
    have hsettled : Sound o location n
        { r.replenish with transfer := some (t.settle store s).1 } :=
      { hr with
        transfer := fun v hv => by
          cases hv
          exact ⟨hsettle, hplan ▸ hl, hpend ▸ hp⟩
        idle := fun hv => by cases hv }
    exact hsettled.hear hf' rfl

/-- Waiting until there is something in the queue or the end is reached. -/
theorem refill (hs : store.Serves location o) (h : Sound o location n r)
    (hf : r.finished = false) (s : σ) :
    (Reader.refill store r s).2.1.Sound o location n ∧
      ((Reader.refill store r s).1 = .ok () → (Reader.refill store r s).2.1.queue = [] →
        (Reader.refill store r s).2.1.finished = true) := by
  fun_induction Reader.refill store r s with
  | case1 r s r' s' hfill =>
    have := h.fill hs hf s
    rw [hfill] at this
    exact ⟨this.1, fun _ => this.2⟩
  | case2 r s e r' s' hfill =>
    have := h.fill hs hf s
    rw [hfill] at this
    exact ⟨this, fun hok => by cases hok⟩
  | case3 r s r' s' hfill ih =>
    have := h.fill hs hf s
    rw [hfill] at this
    exact ih this.1 this.2

/-- The queue holds the first of the bytes that are still to be handed out. -/
theorem queue_prefix (h : Sound o location n r) : r.queue.flatten <+: o.bytes.drop n := by
  cases ht : r.transfer with
  | some t => exact ⟨_, (h.transfer t ht).2.2⟩
  | none =>
    cases hf : r.finished with
    | true => rw [h.finished hf]
    | false =>
      rw [h.idle ht hf]
      exact List.nil_prefix

theorem nil_notMem_advance (h : [] ∉ r.queue) (size : Nat) : [] ∉ (r.advance size).queue := by
  have htail : [] ∉ r.queue.tail := fun hm => h (List.mem_of_mem_tail hm)
  intro hm
  simp only [Reader.advance] at hm
  split at hm
  · exact htail hm
  · rename_i hleft
    rcases List.mem_cons.1 hm with hm | hm
    · exact hleft (hm ▸ rfl)
    · exact htail hm

/-- Handing out bytes moves the position behind them. -/
theorem advance (h : Sound o location n r) (size : Nat) :
    o.bytes.drop n = r.front.take size ++ o.bytes.drop (n + (r.front.take size).length) ∧
      Sound o location (n + (r.front.take size).length) (r.advance size) := by
  have hflat := flatten_advance r size
  generalize htaken : r.front.take size = taken at hflat
  have hprefix : taken <+: o.bytes.drop n := List.IsPrefix.trans ⟨_, hflat⟩ h.queue_prefix
  have hle : n + taken.length ≤ o.bytes.length := by
    have := hprefix.length_le
    rw [List.length_drop] at this
    have := h.le
    omega
  have hdrop : o.bytes.drop n = taken ++ o.bytes.drop (n + taken.length) := by
    obtain ⟨rest, hrest⟩ := hprefix
    rw [← List.drop_drop, ← hrest, List.drop_left]
  have hsplit (more : List UInt8) (hmore : r.queue.flatten ++ more = o.bytes.drop n) :
      (r.advance size).queue.flatten ++ more = o.bytes.drop (n + taken.length) := by
    rw [hdrop, ← hflat, List.append_assoc] at hmore
    exact List.append_cancel_left hmore
  refine ⟨hdrop, ?_⟩
  exact
    { location_eq := h.location_eq
      position := by
        have hsize : min size r.front.length = taken.length := by
          rw [← htaken, List.length_take]
        have hlt : r.position.toNat + taken.length < UInt64.size := by
          rw [h.position]
          exact Nat.lt_of_le_of_lt hle o.size_lt
        rw [Reader.advance, hsize]
        exact (Transfer.toNat_add_ofNat hlt).trans (by rw [h.position])
      le := hle
      transfer := fun t ht => by
        obtain ⟨hs, hl, hp⟩ := h.transfer t ht
        exact ⟨hs, hl, hsplit _ hp⟩
      finished := fun hf => by
        have := hsplit [] (by rw [List.append_nil, h.finished hf])
        rwa [List.append_nil] at this
      idle := fun ht hf => by
        have hq := h.idle ht hf
        simp [Reader.advance, Reader.front, hq]
      chunks := nil_notMem_advance h.chunks size }

/-- A reader that is finished once its queue is empty hands out bytes before the end. -/
theorem take {size : Nat} (h : Sound o location n r) (hsize : 0 < size)
    (hend : r.queue = [] → r.finished = true) :
    o.bytes.drop n = (r.take size).1 ++ o.bytes.drop (n + (r.take size).1.length) ∧
      (r.take size).2.Sound o location (n + (r.take size).1.length) ∧
      ((r.take size).1 = [] → o.bytes.drop n = []) := by
  obtain ⟨hbytes, hsound⟩ := h.advance size
  refine ⟨hbytes, hsound.replenish, fun hnil => ?_⟩
  have hfront : r.front = [] := by
    cases hq : r.front with
    | nil => rfl
    | cons b front =>
      rw [Reader.take, hq] at hnil
      cases size with
      | zero => exact absurd rfl (Nat.ne_of_gt hsize)
      | succ size => cases hnil
  have hqueue : r.queue = [] := by
    cases hq : r.queue with
    | nil => rfl
    | cons c queue =>
      simp only [Reader.front, hq, List.head?_cons, Option.getD_some] at hfront
      exact (h.chunks (by rw [hq, hfront]; exact List.mem_cons_self)).elim
  rw [← h.finished (hend hqueue), hqueue]
  rfl

/-- A read hands out bytes that stand at the position, none only at the end; one that fails leaves
the position where it is. -/
theorem read {size : Nat} {r' : Reader} {s s' : σ} {x : Except Failure (List UInt8)}
    (hs : store.Serves location o) (h : Sound o location n r) (hsize : 0 < size)
    (hr : Reader.read store size r s = (x, r', s')) :
    match x with
    | .ok bytes => o.bytes.drop n = bytes ++ o.bytes.drop (n + bytes.length) ∧
        r'.Sound o location (n + bytes.length) ∧ (bytes = [] → o.bytes.drop n = [])
    | .error _ => r'.Sound o location n := by
  unfold Reader.read at hr
  rw [if_neg (Nat.ne_of_gt hsize)] at hr
  split at hr
  · cases hr
    exact h
  · split at hr
    · rename_i hwait
      rw [Bool.and_eq_true, Bool.not_eq_true'] at hwait
      obtain ⟨hsound, hend⟩ := h.refill hs hwait.2 s
      split at hr
      · rename_i e r₁ s₁ hrefill
        cases hr
        rw [hrefill] at hsound
        exact hsound
      · rename_i r₁ s₁ hrefill
        cases hr
        rw [hrefill] at hsound hend
        exact hsound.take hsize (hend rfl)
    · rename_i hready
      cases hr
      refine h.take hsize fun hq => ?_
      simpa [hq] using hready

end Sound

/-- While a store serves an object, the reader of it is a feed of the bytes from its position on. -/
theorem carries_feed {size : Nat} (hs : store.Serves location o) (hsize : 0 < size) :
    (feed store size).Carries
      (fun bytes (v : Reader × σ) => ∃ n, v.1.Sound o location n ∧ bytes = o.bytes.drop n)
      fun _ => True where
  piece {bytes b bs v v'} hv hp := by
    obtain ⟨n, h, rfl⟩ := hv
    simp only [feed] at hp
    split at hp
    · cases hp
    · cases hp
    · rename_i b' bs' v'' hr
      cases hp
      have hread := h.read hs hsize hr
      exact ⟨_, hread.1, _, hread.2.1, rfl⟩
  finished {bytes v v'} hv hp := by
    obtain ⟨n, h, rfl⟩ := hv
    simp only [feed] at hp
    split at hp
    · cases hp
    · rename_i v'' hr
      cases hp
      have hread := h.read hs hsize hr
      have hend := hread.2.2 rfl
      exact ⟨hend, n, hread.2.1, hend.symm⟩
    · cases hp
  broken _ _ := trivial

end QueryResults.Download.Reader
