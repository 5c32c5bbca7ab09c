import QueryResults.Proofs.Reader.Outlook

/-!
# Reading an object to its end

Reading on until the end of the object or the first failure hands out all chunks of the outlook of a
reader and ends with the last signal of it. The sizes of the reads only decide how the bytes are cut
into pieces.

That no read is left hanging is a condition on the final log: what was asked earlier is in it too.

## Main definitions

* `Reader.drain`, `Reader.exchanges`: reads until the end or the first failure.
* `Reader.Took`: what a read comes to.
* `Reader.Drained.last`: what reading has ended with, as a signal.

## Main results

* `Reader.Going.refill`, `Reader.Going.read`: what waiting and reading take off the outlook.
* `Reader.Going.drain`, `Reader.drain_eq_outlook`: reading to the end comes to the outlook.
-/

namespace QueryResults.Download.Reader

open Store

variable {σ : Type} {store : Store σ} {r r' : Reader} {u : Transfer} {v v' : σ × List Exchange}
  {x : Transfer.Outlook (σ × List Exchange)}

/-- What reading has come to: the bytes, and the failure it ended with, if it did. -/
structure Drained where
  bytes : List UInt8
  failure : Option Failure

/-- The last signal of a download that ends as reading did. -/
def Drained.last (d : Drained) : Signal :=
  match d.failure with
  | some e => .failed e
  | none => .complete

theorem Drained.isTerminal_last (d : Drained) : d.last.isTerminal = true := by
  unfold last
  split <;> rfl

/-- Reads until the end or the first failure. Read number `k` asks for `sizes k` bytes. -/
def drain (store : Store σ) (sizes : Nat → Nat) (r : Reader) (s : σ) : Drained × σ :=
  match _h : read store (sizes 0) r s with
  | (.error e, _, s') => (⟨[], some e⟩, s')
  | (.ok [], _, s') => (⟨[], none⟩, s')
  | (.ok (b :: bs), r', s') =>
    let rest := drain store (fun k => sizes (k + 1)) r' s'
    ({ rest.1 with bytes := b :: bs ++ rest.1.bytes }, rest.2)
termination_by smaller_wf.wrap r
decreasing_by exact smaller_of_read store _h

/-- The exchanges with the store in which an object is read. -/
def exchanges (store : Store σ) (sizes : Nat → Nat) (r : Reader) (s : σ) : List Exchange :=
  (drain store.logged sizes r (s, [])).2.2

/-! ### A log changes nothing -/

theorem fill_logged (store : Store σ) (r : Reader) (s : σ) (log : List Exchange) :
    ∃ log', fill store.logged r (s, log) = ((fill store r s).1, (fill store r s).2, log') := by
  unfold fill listen
  split
  · exact ⟨log, rfl⟩
  · rename_i t ht
    obtain ⟨log', h⟩ := Transfer.settle_logged store t s log
    exact ⟨log', by rw [h]⟩

theorem refill_logged (store : Store σ) (r : Reader) (s : σ) (log : List Exchange) :
    ∃ log', refill store.logged r (s, log) =
      ((refill store r s).1, (refill store r s).2.1, (refill store r s).2.2, log') := by
  fun_induction refill store r s generalizing log with
  | case1 r s r' s' hf
  | case2 r s e r' s' hf =>
    obtain ⟨log', h⟩ := fill_logged store r s log
    rw [hf] at h
    refine ⟨log', ?_⟩
    rw [refill.eq_def]
    split <;> rename_i hf' <;> cases hf'.symm.trans h
    rfl
  | case3 r s r' s' hf ih =>
    obtain ⟨log', h⟩ := fill_logged store r s log
    rw [hf] at h
    obtain ⟨log'', h'⟩ := ih log'
    refine ⟨log'', ?_⟩
    rw [refill.eq_def]
    split <;> rename_i hf' <;> cases hf'.symm.trans h
    exact h'

theorem read_logged (store : Store σ) (size : Nat) (r : Reader) (s : σ) (log : List Exchange) :
    ∃ log', read store.logged size r (s, log) =
      ((read store size r s).1, (read store size r s).2.1, (read store size r s).2.2, log') := by
  unfold read
  split
  · exact ⟨log, rfl⟩
  · split
    · exact ⟨log, rfl⟩
    · split
      · obtain ⟨log', h⟩ := refill_logged store r s log
        refine ⟨log', ?_⟩
        rw [h]
        obtain ⟨y, r', s'⟩ := refill store r s
        cases y <;> rfl
      · exact ⟨log, rfl⟩

/-- A log changes nothing in what is read. -/
theorem drain_logged (store : Store σ) (sizes : Nat → Nat) (r : Reader) (s : σ)
    (log : List Exchange) :
    ∃ log', drain store.logged sizes r (s, log) =
      ((drain store sizes r s).1, (drain store sizes r s).2, log') := by
  fun_induction drain store sizes r s generalizing log with
  | case1 sizes r s e r' s' hr
  | case2 sizes r s r' s' hr =>
    obtain ⟨log', h⟩ := read_logged store (sizes 0) r s log
    rw [hr] at h
    refine ⟨log', ?_⟩
    rw [drain.eq_def]
    split <;> rename_i hr' <;> cases hr'.symm.trans h
    rfl
  | case3 sizes r s b bs r' s' hr rest =>
    rename_i ih
    obtain ⟨log', h⟩ := read_logged store (sizes 0) r s log
    rw [hr] at h
    obtain ⟨log'', h'⟩ := ih log'
    refine ⟨log'', ?_⟩
    rw [drain.eq_def]
    split <;> rename_i hr' <;> cases hr'.symm.trans h
    simp only [h', rest]

/-! ### The log only grows -/

/-- Every request to a store with a log keeps what is in the log. -/
theorem keeps_log (store : Store σ) (l : List Exchange) :
    store.logged.Keeps fun v => l <+: v.2 where
  get _ _ h := h.trans (List.prefix_append _ _)
  lapse _ h := h

theorem prefix_refill (store : Store σ) (r : Reader) (v : σ × List Exchange) :
    v.2 <+: (refill store.logged r v).2.2.2 :=
  keeps_refill (keeps_log store v.2) r (List.prefix_refl _)

theorem keeps_drain {P : σ → Prop} (hk : store.Keeps P) (sizes : Nat → Nat) (r : Reader) {s : σ}
    (h : P s) : P (drain store sizes r s).2 := by
  have hread (size : Nat) {r : Reader} {s : σ} (h : P s) {y} (hr : read store size r s = y) :
      P y.2.2 := hr ▸ keeps_read hk size r h
  fun_induction drain store sizes r s with
  | case1 sizes r s e r' s' hr => exact hread _ h hr
  | case2 sizes r s r' s' hr => exact hread _ h hr
  | case3 sizes r s b bs r' s' hr rest ih => exact ih (hread _ h hr)

theorem prefix_drain (store : Store σ) (sizes : Nat → Nat) (r : Reader) (v : σ × List Exchange) :
    v.2 <+: (drain store.logged sizes r v).2.2 :=
  keeps_drain (keeps_log store v.2) sizes r (List.prefix_refl _)

/-- What holds of every exchange with a store holds of those in which an object is read. -/
theorem forall_exchanges {P : Exchange → Prop} (h : ∀ q s, P ⟨q, (store.get q s).1⟩)
    (sizes : Nat → Nat) (r : Reader) (s : σ) : ∀ y ∈ r.exchanges store sizes s, P y := by
  refine keeps_drain (P := fun v : σ × List Exchange => ∀ y ∈ v.2, P y)
    ⟨fun q v hv y hy => ?_, fun _ => id⟩ sizes r nofun
  rcases List.mem_append.1 hy with hy | hy
  · exact hv y hy
  · cases List.mem_singleton.1 hy
    exact h q v.1

/-! ### Reading takes off the outlook -/

/-- Waiting until there is something in the queue, or the end is reached. -/
theorem Going.refill (h : Going store x r v) (hq : r.queue = [])
    (hp : ∀ y ∈ (Reader.refill store.logged r v).2.2.2, y.IsSmooth) :
    match Reader.refill store.logged r v with
    | (.ok (), r', v') => Heard store x v' (.ready r')
    | (.error e, r', v') => Heard store x v' (.failed e r') := by
  have hfill {r : Reader} {v : σ × List Exchange} {y : Filled Reader × σ × List Exchange}
      (h : Going store x r v) (hq : r.queue = []) (hf : Reader.fill store.logged r v = y)
      (hp : ∀ z ∈ y.2.2, z.IsSmooth) : Heard store x y.2 y.1 := by
    cases hf
    exact h.fill hq hp
  fun_induction Reader.refill store.logged r v with
  | case1 r v r' v' hf => exact hfill h hq hf hp
  | case2 r v e r' v' hf => exact hfill h hq hf hp
  | case3 r v r' v' hf ih =>
    have hp' : ∀ y ∈ v'.2, y.IsSmooth :=
      fun y hy => hp y ((prefix_refill store r' v').subset hy)
    cases hfill h hq hf hp' with
    | restarted hq' h' => exact ih h' hq' hp

/-- Handing out bytes leaves what is still to be received as it is. -/
theorem Linked.advance (h : Linked store x r u v) (n : Nat) :
    Linked store x (r.advance n) u v where
  coherent := h.coherent
  single := h.single
  location_eq := h.location_eq
  cancelled := h.cancelled
  steady := h.steady
  delivered := by
    have hsize : min n r.front.length = (r.front.take n).length := List.length_take.symm
    rw [h.delivered, ← flatten_advance r n, List.append_assoc, List.length_append,
      UInt64.ofNat_add, ← UInt64.add_assoc, ← hsize]
    rfl
  etag := h.etag
  attempt := h.attempt

/-- Handing out bytes of a queue that is not empty: one byte at least. -/
theorem Going.take (h : Going store x r v) (hq : r.queue ≠ []) {n : Nat} (hn : 0 < n) :
    (r.take n).1 ≠ [] ∧ r.queue.flatten = (r.take n).1 ++ (r.take n).2.queue.flatten ∧
      Going store x (r.take n).2 v := by
  have hadvance : Going store x (r.advance n) v :=
    { failed := h.failed
      finished := h.finished
      chunks := Sound.nil_notMem_advance h.chunks n
      idle := fun ht => absurd (h.idle ht).1 hq
      linked := fun u hu => (h.linked u hu).advance n }
  refine ⟨?_, ?_, hadvance.replenish⟩
  · obtain ⟨c, rest, hc⟩ := List.exists_cons_of_ne_nil hq
    have hne : c ≠ [] := by
      rintro rfl
      exact h.chunks (hc ▸ List.mem_cons_self)
    simp [Reader.take, front, hc, hne, Nat.ne_of_gt hn]
  · rw [Reader.take, queue_replenish, flatten_advance]

/-- What a read comes to that asks for one byte at least: bytes of the queue and of chunks it has
waited for, the end, or the failure that is to be received. -/
inductive Took (store : Store σ) (x : Transfer.Outlook (σ × List Exchange)) (r r' : Reader)
    (v' : σ × List Exchange) : Except Failure (List UInt8) → Prop
  | bytes {x' : Transfer.Outlook (σ × List Exchange)} {bytes : List UInt8}
      (chunks : List (List UInt8)) (hne : bytes ≠ []) (hx : x = x'.behind (chunks.map .chunk))
      (hbytes : r.queue.flatten ++ chunks.flatten = bytes ++ r'.queue.flatten)
      (h : Going store x' r' v') : Took store x r r' v' (.ok bytes)
  | finished (hq : r.queue = []) (hx : x.signals = [.complete]) (hv : x.state = v') :
      Took store x r r' v' (.ok [])
  | failed {e : Failure} (hq : r.queue = []) (hx : x.signals = [.failed e]) (hv : x.state = v') :
      Took store x r r' v' (.error e)

/-- A read takes off the outlook what it has waited for. -/
theorem Going.read (h : Going store x r v) {size : Nat} (hsize : 0 < size)
    {y : Except Failure (List UInt8)} (hr : Reader.read store.logged size r v = (y, r', v'))
    (hp : ∀ z ∈ v'.2, z.IsSmooth) : Took store x r r' v' y := by
  unfold Reader.read at hr
  rw [if_neg (Nat.ne_of_gt hsize), h.failed] at hr
  simp only [h.finished, Bool.not_false, Bool.and_true, List.isEmpty_iff] at hr
  split at hr
  · rename_i hq
    have hrefill := h.refill hq
    split at hr
    · rename_i hf
      rw [hf] at hrefill
      cases hr
      cases hrefill hp with
      | failed hx hv => exact .failed hq hx hv
    · rename_i r₁ v₁ hf
      rw [hf] at hrefill
      cases hr
      cases hrefill hp with
      | @chunk _ x' b hx hq' h' =>
        obtain ⟨hne, hflat, hgoing⟩ := h'.take (hq' ▸ List.cons_ne_nil _ _) hsize
        exact .bytes [b] hne hx (by rw [hq, ← hflat, hq']; rfl) hgoing
      | finished hq' hx hv =>
        have hnil : (r₁.take size).1 = [] := by simp [Reader.take, front, hq']
        rw [hnil]
        exact .finished hq hx hv
  · rename_i hq
    cases hr
    obtain ⟨hne, hflat, hgoing⟩ := h.take hq hsize
    exact .bytes [] hne rfl (by rw [← hflat, List.flatten_nil, List.append_nil]) hgoing

/-- Reading to the end hands out what is queued and all chunks of the outlook, and ends with its
last signal. -/
theorem Going.drain {sizes : Nat → Nat} (hsizes : ∀ k, 0 < sizes k) (h : Going store x r v)
    (hp : ∀ y ∈ (Reader.drain store.logged sizes r v).2.2, y.IsSmooth) :
    ∃ chunks : List (List UInt8),
      x.signals = chunks.map .chunk ++ [(Reader.drain store.logged sizes r v).1.last] ∧
      (Reader.drain store.logged sizes r v).1.bytes = r.queue.flatten ++ chunks.flatten ∧
      x.state = (Reader.drain store.logged sizes r v).2 := by
  fun_induction Reader.drain store.logged sizes r v generalizing x with
  | case1 sizes r v e r' v' hr =>
    cases h.read (hsizes 0) hr hp with
    | failed hq hx hv => exact ⟨[], hx, by simp [hq], hv⟩
  | case2 sizes r v r' v' hr =>
    cases h.read (hsizes 0) hr hp with
    | bytes chunks hne => exact absurd rfl hne
    | finished hq hx hv => exact ⟨[], hx, by simp [hq], hv⟩
  | case3 sizes r v b bs r' v' hr rest =>
    rename_i ih
    have hp' : ∀ y ∈ v'.2, y.IsSmooth :=
      fun y hy => hp y ((prefix_drain store _ r' v').subset hy)
    cases h.read (hsizes 0) hr hp' with
    | bytes chunks hne hx hbytes h' =>
      obtain ⟨more, hsignals, hflat, hstate⟩ := ih (fun k => hsizes (k + 1)) h' hp
      refine ⟨chunks ++ more, ?_, ?_, ?_⟩
      · rw [hx]
        simp only [Transfer.Outlook.behind, hsignals, List.map_append, List.append_assoc]
        rfl
      · rw [List.flatten_append, ← List.append_assoc, hbytes, List.append_assoc, ← hflat]
      · rw [hx, ← hstate]
        rfl

/-- Reading an object to its end comes to the outlook of a reader that has not begun. -/
theorem drain_eq_outlook {sizes : Nat → Nat} (hsizes : ∀ k, 0 < sizes k) (location : Location)
    (settings : Settings.Download) (s : σ)
    (hp : ∀ y ∈ (ofLocation location settings).exchanges store sizes s, y.IsSmooth) :
    ∃ chunks : List (List UInt8),
      ((ofLocation location settings).outlook store (s, [])).signals = chunks.map .chunk ++
        [((ofLocation location settings).drain store sizes s).1.last] ∧
      ((ofLocation location settings).drain store sizes s).1.bytes = chunks.flatten ∧
      ((ofLocation location settings).outlook store (s, [])).state.2 =
        (ofLocation location settings).exchanges store sizes s := by
  have hstart : Going store ((ofLocation location settings).outlook store (s, []))
      (.ofLocation location settings) (s, []) :=
    { failed := rfl
      finished := rfl
      chunks := nofun
      idle := fun _ => ⟨rfl, rfl, rfl⟩
      linked := nofun }
  obtain ⟨chunks, hsignals, hbytes, hstate⟩ := hstart.drain hsizes hp
  obtain ⟨log, hlog⟩ := drain_logged store sizes (.ofLocation location settings) s []
  have hdrained := congrArg Prod.fst hlog
  exact ⟨chunks, hdrained ▸ hsignals, hdrained ▸ hbytes, congrArg Prod.snd hstate⟩

end QueryResults.Download.Reader
