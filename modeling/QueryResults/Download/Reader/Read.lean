import QueryResults.Download.Reader.Supply

/-!
# Reading an object as bytes

A read hands out queued bytes, or waits until there are some. One that hands out a byte leaves less
to read, so an object is read to its end in finitely many reads.

## Main definitions

* `Reader.read`: at most so many bytes; none at the end.
* `Reader.feed`: the reader as a feed of bytes.

## Main results

* `Reader.smaller_of_read`: every read that hands out a byte leaves less to read.
-/

namespace QueryResults.Download.Reader

variable {σ : Type} (store : Store σ)

/-- Waits until there is something in the queue, or the end is reached. -/
def refill (r : Reader) (s : σ) : Except Failure Unit × Reader × σ :=
  match _h : fill store r s with
  | (.ready r', s') => (.ok (), r', s')
  | (.failed e r', s') => (.error e, r', s')
  | (.restarted r', s') => refill r' s'
termination_by wf_less.wrap r
decreasing_by exact less_of_fill _h

/-- Waiting for something in the queue, signal by signal. -/
theorem refill_eq (r : Reader) (s : σ) :
    refill store r s =
      match fill store r s with
      | (.ready r', s') => (.ok (), r', s')
      | (.failed e r', s') => (.error e, r', s')
      | (.restarted r', s') => refill store r' s' := by
  rw [refill.eq_def]
  split <;> simp only [*]

/-- Reads at most `n` bytes. There are none exactly at the end, unless none were asked for. -/
def read (n : Nat) (r : Reader) (s : σ) : Except Failure (List UInt8) × Reader × σ :=
  if n = 0 then (.ok [], r, s)
  else
    match r.failed with
    | some e => (.error e.repeated, r, s)
    | none =>
      if r.queue.isEmpty && !r.finished then
        match refill store r s with
        | (.error e, r, s) => (.error e, r, s)
        | (.ok (), r, s) => (.ok (r.take n).1, (r.take n).2, s)
      else (.ok (r.take n).1, (r.take n).2, s)

/-- When less is left to read: less to receive, or as much to receive and fewer bytes in the
queue. -/
def Smaller (r u : Reader) : Prop :=
  Prod.Lex
    (Prod.Lex (· < ·) (Prod.Lex (Prod.Lex (· < ·) (Prod.Lex (· < ·) (· < ·))) (· < ·)))
    (· < ·) (r.supply, r.queue.flatten.length) (u.supply, u.queue.flatten.length)

theorem smaller_wf : WellFounded Smaller :=
  InvImage.wf (fun r : Reader => (r.supply, r.queue.flatten.length))
    (Prod.lex
      (Prod.lex Nat.lt_wfRel
        (Prod.lex (Prod.lex Nat.lt_wfRel (Prod.lex Nat.lt_wfRel Nat.lt_wfRel)) Nat.lt_wfRel))
      Nat.lt_wfRel).wf

theorem Smaller.of_less {r u : Reader} (h : Less r u) : Smaller r u := .left _ _ h

theorem supply_advance (r : Reader) (n : Nat) : (r.advance n).supply = r.supply := rfl

/-- Handing bytes out takes them from the front of the queue. -/
theorem flatten_advance (r : Reader) (n : Nat) :
    r.front.take n ++ (r.advance n).queue.flatten = r.queue.flatten := by
  unfold advance front
  cases hq : r.queue with
  | nil => simp
  | cons c rest =>
    by_cases hl : (c.drop n).isEmpty
    · have := List.take_append_drop n c
      rw [List.isEmpty_iff.1 hl, List.append_nil] at this
      simp [hl, this]
    · simp [hl, ← List.append_assoc]

/-- Handing out a byte leaves less to read. -/
theorem smaller_of_take {r r' : Reader} {n : Nat} {b : UInt8} {bs : List UInt8}
    (h : r.take n = (b :: bs, r')) : Smaller r' r := by
  simp only [take, Prod.mk.injEq] at h
  obtain ⟨hb, rfl⟩ := h
  rcases supply_replenish (r.advance n) with he | hl
  · unfold Smaller
    rw [he, queue_replenish, supply_advance]
    refine .right _ ?_
    have := congrArg List.length (flatten_advance r n)
    simp only [hb, List.length_append, List.length_cons] at this
    omega
  · exact .of_less hl

/-- Reading leaves less to receive, or the queue is empty at the end. -/
theorem refill_ok {r r' : Reader} {s s' : σ} (hq : r.queue = [])
    (h : refill store r s = (.ok (), r', s')) : Less r' r ∨ r'.queue = [] := by
  fun_induction refill store r s with
  | case1 r s r₁ s₁ hf =>
    cases h
    rcases fill_ready hf with hl | hd
    · exact .inl hl
    · exact .inr (hd.2.trans hq)
  | case2 => cases h
  | case3 r s r₁ s₁ hf ih =>
    rcases ih (queue_of_fill hf) h with hl | hd
    · exact .inl (hl.trans (less_of_fill hf))
    · exact .inr hd

theorem Smaller.trans_less {r u v : Reader} (h : Smaller r u) (h' : Less u v) : Smaller r v := by
  rcases Prod.lex_def.1 h with hl | he
  · exact .of_less (Less.trans hl h')
  · refine .of_less ?_
    have same : r.supply = u.supply := he.1
    unfold Less at *
    rwa [same]

/-- A read that hands out a byte leaves less to read. -/
theorem smaller_of_read {n : Nat} {r r' : Reader} {s s' : σ} {b : UInt8} {bs : List UInt8}
    (h : read store n r s = (.ok (b :: bs), r', s')) : Smaller r' r := by
  have taken {u : Reader} {v : σ}
      (h : ((Except.ok (u.take n).1 : Except Failure _), (u.take n).2, v) =
        (.ok (b :: bs), r', s')) : u.take n = (b :: bs, r') := by
    simp only [Prod.mk.injEq, Except.ok.injEq] at h
    exact Prod.ext h.1 h.2.1
  unfold read at h
  split at h
  · cases h
  · split at h
    · cases h
    · split at h
      · rename_i hq
        simp only [Bool.and_eq_true, List.isEmpty_iff] at hq
        split at h
        · cases h
        · rename_i r₁ s₁ hr
          rcases refill_ok store hq.1 hr with hl | he
          · exact (smaller_of_take (taken h)).trans_less hl
          · have := congrArg Prod.fst (taken h)
            simp [take, front, he] at this
      · exact smaller_of_take (taken h)

/-- A reader and the state of its store, as a feed of bytes that is read `size` bytes at a time. A
failed read travels inside a fault of the feed. -/
def feed (size : Nat) : Feed (Reader × σ) where
  pull
    | (r, s) =>
      match read store size r s with
      | (.error e, rest) => (.broken (.carried e), rest)
      | (.ok [], rest) => (.finished, rest)
      | (.ok (b :: bs), rest) => (.piece b bs, rest)
  Smaller a b := Smaller a.1 b.1
  wf := InvImage.wf Prod.fst smaller_wf
  pull_smaller := by
    intro a a' b bs h
    simp only at h
    split at h
    · cases h
    · cases h
    · rename_i hr
      cases h
      exact smaller_of_read store hr

end QueryResults.Download.Reader
