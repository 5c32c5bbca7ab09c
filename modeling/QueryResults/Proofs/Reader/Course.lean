import QueryResults.Proofs.Reader.Standing

/-!
# Courses of readers

A reader and the task of its transfer run side by side. The *course* of a reader is what has become
of both after some acts in any order: the task makes a step, a read is called, or the read that is
under way goes on. A read that has to wait goes through its loop in two acts, as the task may step
in between: it grants demand where too little is to come, and it takes the next signal. With that
signal it ends or, where the transfer has failed and another one takes its place, begins its loop
anew. Where there is no signal it times out, which can happen at any moment: the task may be slow,
and its store may never answer.

A sequence of reads that wait for the task to come to rest is one such course
(`Course.exists_run_reads`).

## Main definitions

* `Reader.Stage`, `Reader.Act`, `Reader.Course`.
* `Course.act`, `Course.run`: what becomes of a course.

## Main results

* `Course.exists_run_reads`: any sequence of reads is a course.
-/

namespace QueryResults.Download.Reader

open Store

variable {σ : Type}

/-- How far the read of a caller has got. -/
inductive Stage where
  /-- No read is under way. -/
  | resting
  /-- A read of at most `n` bytes is about to grant demand. At its call the reader was `before`. -/
  | granting (n : Nat) (before : Reader)
  /-- A read of at most `n` bytes waits for a signal. At its call the reader was `before`. -/
  | waiting (n : Nat) (before : Reader)

/-- What can be done in the course of a reader. -/
inductive Act where
  /-- The task of the transfer makes one step, if there is a transfer and it can. -/
  | work
  /-- A read of at most `n` bytes is called, if none is under way. -/
  | call (n : Nat)
  /-- The read that is about to grant demand does so where too little is to come. -/
  | grant
  /-- The read that waits takes the next signal, or times out if there is none. -/
  | hear

/-- A reader with its transfer, the state of its store, and how far its caller has got. -/
structure Course (σ : Type) where
  reader : Reader
  outside : σ
  stage : Stage := .resting
  /-- How often a failed transfer was replaced by another one. -/
  restarts : Nat := 0
  /-- What the reads have returned, oldest first. -/
  results : List (Except Failure (List UInt8)) := []

/-- The course of a reader that has not begun. -/
def Course.start (location : Location) (settings : Settings.Download) (outside : σ) : Course σ :=
  { reader := .ofLocation location settings, outside }

/-- The end of a read. -/
def Course.returning (c : Course σ) (result : Except Failure (List UInt8)) (r : Reader) :
    Course σ :=
  { c with reader := r, stage := .resting, results := c.results ++ [result] }

/-- The course with its transfer and the state of its store replaced. -/
def Course.withTransfer (c : Course σ) (t : Transfer) (outside : σ) : Course σ :=
  { c with reader := { c.reader with transfer := some t }, outside }

/-- One step of the task in the course of a reader. -/
def Course.work (store : Store σ) (c : Course σ) : Course σ :=
  match c.reader.transfer with
  | none => c
  | some t =>
    match t.step store c.outside with
    | none => c
    | some (t, outside) => c.withTransfer t outside

/-- The call of a read. -/
def Course.call (c : Course σ) (n : Nat) : Course σ :=
  if n = 0 then c.returning (.ok []) c.reader
  else
    match c.reader.failed with
    | some e => c.returning (.error e.repeated) c.reader
    | none =>
      if c.reader.queue.isEmpty && !c.reader.finished then
        { c with stage := .granting n c.reader }
      else c.returning (.ok (c.reader.take n).1) (c.reader.take n).2

/-- What a reader takes for the next thing that comes from its transfer. -/
def heard (r : Reader) : Filled Reader :=
  match r.transfer with
  | none => r.receive .over
  | some t => r.hear t

/-- What a read of at most `n` bytes makes of what it has heard. -/
def Course.go (c : Course σ) (n : Nat) (before : Reader) : Filled Reader → Course σ
  | .ready r => c.returning (.ok (r.take n).1) (r.take n).2
  | .failed e r => c.returning (.error e) r
  | .restarted r =>
    { c with reader := r, stage := .granting n before, restarts := c.restarts + 1 }

/-- What becomes of the course of a reader by one act. An act whose time has not come does
nothing. -/
def Course.act (store : Store σ) (c : Course σ) : Act → Course σ
  | .work => c.work store
  | .call n =>
    match c.stage with
    | .resting => c.call n
    | _ => c
  | .grant =>
    match c.stage with
    | .granting n before => { c with reader := c.reader.replenish, stage := .waiting n before }
    | _ => c
  | .hear =>
    match c.stage with
    | .waiting n before => c.go n before c.reader.heard
    | _ => c

/-- What becomes of the course of a reader by acts in any order. -/
def Course.run (store : Store σ) (c : Course σ) (acts : List Act) : Course σ :=
  acts.foldl (Course.act store) c

variable (store : Store σ) {c : Course σ} {n : Nat} {before : Reader}

theorem Course.run_append (c : Course σ) (acts acts' : List Act) :
    c.run store (acts ++ acts') = (c.run store acts).run store acts' := List.foldl_append

/-- What the task does in the course of a reader. -/
theorem Course.work_cases (c : Course σ) :
    c.work store = c ∨ ∃ t t' s', c.reader.transfer = some t ∧
      Transfer.Transition store t c.outside t' s' ∧ c.work store = c.withTransfer t' s' := by
  cases ht : c.reader.transfer with
  | none => exact .inl (by simp only [work, ht])
  | some t =>
    cases hs : t.step store c.outside with
    | none => exact .inl (by simp only [work, ht, hs])
    | some y =>
      exact .inr ⟨t, y.1, y.2, rfl, Transfer.transition_of_step hs, by simp only [work, ht, hs]⟩

theorem Course.act_grant (h : c.stage = .granting n before) :
    c.act store .grant = { c with reader := c.reader.replenish, stage := .waiting n before } := by
  simp only [act, h]

theorem Course.act_hear (h : c.stage = .waiting n before) :
    c.act store .hear = c.go n before c.reader.heard := by
  simp only [act, h]

theorem Course.act_call (h : c.stage = .resting) (n : Nat) : c.act store (.call n) = c.call n := by
  simp only [act, h]

/-- What a read makes of what it has heard depends on nothing that has changed since it began to
wait but the state of the store. -/
theorem Course.go_congr {d : Course σ} (houtside : c.outside = d.outside)
    (hrestarts : c.restarts = d.restarts) (hresults : c.results = d.results) (x : Filled Reader) :
    c.go n before x = d.go n before x := by
  cases x <;> simp only [go, returning, houtside, hrestarts, hresults]

/-! ### Sequences of reads -/

/-- A task that comes to rest makes some steps. -/
theorem Course.exists_run_settle {t : Transfer} {outside : σ} (ht : c.reader.transfer = some t)
    (ho : c.outside = outside) :
    ∃ acts, c.run store acts =
      c.withTransfer (t.settle store outside).1 (t.settle store outside).2 := by
  fun_induction Transfer.settle store t outside generalizing c with
  | case1 t outside hs =>
    refine ⟨[], ?_⟩
    rw [← ho]
    change c = { c with reader := { c.reader with transfer := some t } }
    rw [← ht]
  | case2 t outside t' outside' hs ih =>
    have hwork : c.act store .work = c.withTransfer t' outside' := by
      simp only [act, work, ht, ho, hs]
    obtain ⟨acts, h⟩ := ih (c := c.withTransfer t' outside') rfl rfl
    exact ⟨.work :: acts, by rw [run, List.foldl_cons, hwork]; exact h⟩

/-- A read that grants demand and waits for the task to come to rest takes the next signal. -/
theorem Course.exists_run_fill (h : c.stage = .granting n before) :
    ∃ acts, c.run store acts =
      { c with outside := (fill store c.reader c.outside).2 }.go n before
        (fill store c.reader c.outside).1 := by
  have hgrant := act_grant store h
  unfold fill listen
  cases ht : c.reader.replenish.transfer with
  | none =>
    refine ⟨[.grant, .hear], ?_⟩
    change (c.act store .grant).act store .hear = _
    rw [hgrant, act_hear store rfl, heard]
    simp only [ht]
    exact go_congr rfl rfl rfl _
  | some t =>
    have htransfer : (c.act store .grant).reader.transfer = some t := hgrant ▸ ht
    obtain ⟨acts, hacts⟩ := exists_run_settle store htransfer rfl
    refine ⟨.grant :: (acts ++ [.hear]), ?_⟩
    change (c.act store .grant).run store (acts ++ [.hear]) = _
    rw [run_append, hacts, hgrant]
    exact go_congr rfl rfl rfl _

/-- What a read of at most `n` bytes returns once it has got out of its loop. -/
def handOut (n : Nat) : Except Failure Unit × Reader × σ → Except Failure (List UInt8) × Reader × σ
  | (.error e, r, s) => (.error e, r, s)
  | (.ok (), r, s) => (.ok (r.take n).1, (r.take n).2, s)

/-- A course that has gone on from another one by a read: what it returned, and what it left. -/
structure Course.HasRead (c : Course σ) (y : Except Failure (List UInt8) × Reader × σ)
    (d : Course σ) : Prop where
  stage : d.stage = .resting
  results : d.results = c.results ++ [y.1]
  reader : d.reader = y.2.1
  outside : d.outside = y.2.2

/-- A read that waits goes through its loop until it has something to hand out. -/
theorem Course.exists_run_refill {r : Reader} {s : σ} (h : c.stage = .granting n before)
    (hr : c.reader = r) (hs : c.outside = s) :
    ∃ acts, c.HasRead (handOut n (refill store r s)) (c.run store acts) := by
  fun_induction refill store r s generalizing c with
  | case1 r s r' s' hf =>
    obtain ⟨acts, hacts⟩ := exists_run_fill store h
    rw [hr, hs, hf] at hacts
    exact ⟨acts, hacts ▸ ⟨rfl, rfl, rfl, rfl⟩⟩
  | case2 r s e r' s' hf =>
    obtain ⟨acts, hacts⟩ := exists_run_fill store h
    rw [hr, hs, hf] at hacts
    exact ⟨acts, hacts ▸ ⟨rfl, rfl, rfl, rfl⟩⟩
  | case3 r s r' s' hf ih =>
    obtain ⟨acts, hacts⟩ := exists_run_fill store h
    rw [hr, hs, hf] at hacts
    have hstage : (c.run store acts).stage = .granting n before := by rw [hacts]; rfl
    obtain ⟨acts', hread⟩ := ih hstage (by rw [hacts]; rfl) (by rw [hacts]; rfl)
    have hresults : (c.run store acts).results = c.results := by rw [hacts]; rfl
    refine ⟨acts ++ acts', ?_⟩
    rw [run_append]
    exact { hread with results := hresults ▸ hread.results }

/-- A read is called, and goes through its loop if it has to wait. -/
theorem Course.exists_run_read (h : c.stage = .resting) (n : Nat) :
    ∃ acts, c.HasRead (read store n c.reader c.outside) (c.run store acts) := by
  have atOnce {result : Except Failure (List UInt8)} {r : Reader}
      (hcall : c.call n = c.returning result r) :
      ∃ acts, c.HasRead (result, r, c.outside) (c.run store acts) := by
    refine ⟨[.call n], ?_⟩
    change c.HasRead _ (c.act store (.call n))
    rw [act_call store h, hcall]
    exact ⟨rfl, rfl, rfl, rfl⟩
  unfold read
  split
  · rename_i hn
    exact atOnce (if_pos hn)
  · rename_i hn
    cases hfailed : c.reader.failed with
    | some e => exact atOnce (by simp only [call, if_neg hn, hfailed])
    | none =>
      dsimp only
      split
      · rename_i hwait
        have hcall : c.act store (.call n) = { c with stage := .granting n c.reader } := by
          simp only [act_call store h, call, if_neg hn, hfailed, hwait, ↓reduceIte]
        have hstage : (c.act store (.call n)).stage = .granting n c.reader := by rw [hcall]
        obtain ⟨acts, hread⟩ := exists_run_refill store hstage rfl rfl
        refine ⟨.call n :: acts, ?_⟩
        change c.HasRead _ ((c.act store (.call n)).run store acts)
        rw [hcall] at hread ⊢
        exact ⟨hread.stage, hread.results, hread.reader, hread.outside⟩
      · rename_i hgo
        exact atOnce (by simp only [call, if_neg hn, hfailed, hgo]; rfl)

/-- Any sequence of reads is a course. -/
theorem Course.exists_run_reads (h : c.stage = .resting) (sizes : List Nat) :
    ∃ acts, (c.run store acts).stage = .resting ∧
      ((c.run store acts).reader, (c.run store acts).outside) =
        reads store sizes c.reader c.outside := by
  induction sizes generalizing c with
  | nil => exact ⟨[], h, rfl⟩
  | cons n sizes ih =>
    obtain ⟨acts, hread⟩ := exists_run_read store h n
    obtain ⟨acts', hstage, hreads⟩ := ih hread.stage
    rw [hread.reader, hread.outside] at hreads
    refine ⟨acts ++ acts', ?_⟩
    rw [run_append]
    exact ⟨hstage, hreads⟩

end QueryResults.Download.Reader
