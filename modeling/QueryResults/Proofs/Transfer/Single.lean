import QueryResults.Proofs.Transfer.Outlook

/-!
# Transfers of a single attempt

A transfer without retries makes one attempt and never pauses. Its forecast is that attempt, with
the failure, if it falls short, for its last signal. Failures of earlier attempts and the knowledge
that the store has responded before have no influence on what an attempt comes to; they only decide
what follows it (`Progress.answered_under`). The progress of a transfer only grows, and it knows
where the bytes end that it has handed over.

## Main definitions

* `Transfer.Single`: a transfer without retries and earlier failures.
* `Transfer.Grown`: the progress of a transfer after some steps.
* `Progress.under`: progress in the light of earlier attempts.

## Main results

* `Transfer.Single.transition`, `Transfer.grown_transition`: what a step keeps.
* `Progress.answered_under`: an attempt in the light of earlier ones.
-/

namespace QueryResults.Download.Transfer

open Store

variable {σ : Type} {store : Store σ} {t t' u : Transfer} {s s' : σ} {location : Location}

/-- A transfer without retries and without earlier failures. -/
structure Single (t : Transfer) : Prop where
  retriesLeft : t.progress.retriesLeft = 0
  failures : t.progress.failures = []
  phase : ∀ left, t.phase ≠ .pausing left

namespace Single

theorem concluded (h : t.Single) (hc : t.Concluded t') : t'.Single := by
  cases hc with
  | closing hl => exact ⟨h.retriesLeft, h.failures, nofun⟩
  | pausing hl => cases h.retriesLeft.symm.trans hl

theorem gathered (h : t.Single) : t.gathered.Single := ⟨h.retriesLeft, h.failures, h.phase⟩

/-- A step of the task leaves a transfer single. -/
theorem transition (h : t.Single) (ht : Transition store t s t' s') : t'.Single := by
  cases ht with
  | fail hc hp => exact h.concluded (concluded_refused t _)
  | reject hc hp ha => exact h.concluded (concluded_refused t _)
  | finish hc hp hd hn => exact h.gathered.concluded (concluded_bodyEnded _)
  | breakOff hc hp hd hn => exact h.gathered.concluded (concluded_retry _ _)
  | accept hc hp ha hf =>
    obtain ⟨rfl, -⟩ := accept_eq_ok ha
    exact ⟨h.retriesLeft, h.failures, nofun⟩
  | _ => exact ⟨h.retriesLeft, h.failures, nofun⟩

end Single

/-! ### Growing progress -/

/-- The progress of a transfer after some steps: what was known still is, and the offset has moved
behind the bytes handed over. -/
structure Grown (t t' : Transfer) : Prop where
  etag : ∀ tag, t.progress.etag = some tag → t'.progress.etag = some tag
  responded : t.progress.responded = true → t'.progress.responded = true
  bytes : ∃ bytes : List UInt8,
    t'.progress.delivered = t.progress.delivered + .ofNat bytes.length ∧
      t'.channel.flatMap Signal.bytes = t.channel.flatMap Signal.bytes ++ bytes

theorem ofNat_length_nil (a : UInt64) : a + .ofNat ([] : List UInt8).length = a := by simp

/-- Where nothing is handed over and nothing new is known. -/
theorem Grown.of_eq (he : t'.progress.etag = t.progress.etag)
    (hr : t'.progress.responded = t.progress.responded)
    (hd : t'.progress.delivered = t.progress.delivered) (hch : t'.channel = t.channel) :
    t.Grown t' where
  etag _ := he.trans
  responded := hr.trans
  bytes := ⟨[], by rw [hd, ofNat_length_nil], by rw [hch, List.append_nil]⟩

theorem Grown.concluded (hc : t.Concluded t') : t.Grown t' := by
  cases hc <;> exact .of_eq rfl rfl rfl rfl

/-- A step of the task lets the progress of a transfer grow. -/
theorem grown_transition (hlast : ∀ last, t.phase = .closing last → last.isTerminal = true)
    (ht : Transition store t s t' s') : t.Grown t' := by
  have gathered (h : t.gathered.Grown t') : t.Grown t' := ⟨h.etag, h.responded, h.bytes⟩
  cases ht with
  | fail hc hp => exact .concluded (concluded_refused t _)
  | reject hc hp ha => exact .concluded (concluded_refused t _)
  | finish hc hp hd hn => exact gathered (.concluded (concluded_bodyEnded _))
  | breakOff hc hp hd hn => exact gathered (.concluded (concluded_retry _ _))
  | accept hc hp ha hf =>
    obtain ⟨rfl, -⟩ := accept_eq_ok ha
    exact
      { etag := fun tag htag => by simp [htag]
        responded := fun _ => rfl
        bytes := ⟨[], (ofNat_length_nil _).symm, (List.append_nil _).symm⟩ }
  | overflow hc hp ha hf =>
    obtain ⟨rfl, -⟩ := accept_eq_ok ha
    exact
      { etag := fun tag htag => by simp [htag]
        responded := id
        bytes := ⟨[], (ofNat_length_nil _).symm, (List.append_nil _).symm⟩ }
  | @hand bytes body hc hp hr hf | @overrun bytes body hc hp hr hf =>
    exact
      { etag := fun _ => id
        responded := id
        bytes := ⟨bytes, rfl, by simp [Signal.bytes]⟩ }
  | @close last hc hp hr =>
    have hnone : last.bytes = [] := Signal.bytes_eq_nil (hlast _ hp)
    exact
      { etag := fun _ => id
        responded := id
        bytes := ⟨[], (ofNat_length_nil _).symm, by simp [hnone]⟩ }
  | _ => exact .of_eq rfl rfl rfl rfl

/-! ### Attempts in the light of earlier ones -/

/-- The same attempt with the progress seen differently. -/
def Attempt.mapProgress (f : Progress → Progress) (a : Attempt) : Attempt :=
  { a with progress := f a.progress }

/-- What begins with a chunk is an attempt that begins with it. -/
theorem Attempt.exists_after {a : Attempt} {x : Outlook σ} {b : List UInt8}
    (h : a.conclude none s = x.behind [.chunk b]) :
    ∃ a' : Attempt, a = a'.after b ∧ a'.conclude none s = x := by
  obtain ⟨chunks, upshot, progress⟩ := a
  cases chunks with
  | nil => cases upshot <;> cases congrArg Outlook.signals h
  | cons c chunks =>
    have hc := conclude_after none { chunks, upshot, progress } c s
    have heq := hc.symm.trans h
    obtain ⟨hcb, -⟩ := List.cons.inj (congrArg Outlook.signals heq)
    cases hcb
    exact ⟨{ chunks, upshot, progress }, rfl, Outlook.behind_cancel heq⟩

/-- What an attempt comes to that ends with a last signal. -/
def upshotOf : Signal → Upshot
  | .failed e => .fellShort e
  | _ => .completed

/-- What is only a last signal is an attempt without chunks. -/
theorem Attempt.eq_of_terminal {a : Attempt} {y : Signal} {p : Progress} {s' : σ}
    (hfail : a.progress.failures = []) (hy : y.isTerminal = true)
    (h : a.conclude none s = ⟨[y], p, s'⟩) :
    a = { upshot := upshotOf y, progress := p } ∧ s = s' := by
  obtain ⟨chunks, upshot, progress⟩ := a
  have hchunks : chunks = [] := by
    cases chunks with
    | nil => rfl
    | cons c chunks =>
      have hc := conclude_after none { chunks, upshot, progress } c s
      obtain ⟨rfl, -⟩ := List.cons.inj (congrArg Outlook.signals (hc.symm.trans h))
      cases hy
  subst hchunks
  cases upshot with
  | completed =>
    cases h
    exact ⟨rfl, rfl⟩
  | stuck => cases congrArg Outlook.signals h
  | fellShort e =>
    simp only [conclude, Outlook.mk.injEq, List.map_nil, List.nil_append, List.cons.injEq,
      and_true] at h
    obtain ⟨rfl, rfl, rfl⟩ := h
    rw [show progress.failures = [] from hfail, Failure.withSuppressed_nil]
    exact ⟨rfl, rfl⟩

namespace Progress

variable {p : Progress}

/-- Progress in the light of earlier attempts: whether one of them was answered, and how they
failed. -/
def under (answered : Bool) (failures : List Failure) (p : Progress) : Progress :=
  { p with responded := answered || p.responded, failures }

/-- Earlier attempts have no influence on what becomes of a body. -/
theorem consume_under (answered : Bool) (failures : List Failure) (body : List Item)
    (p : Progress) :
    (p.under answered failures).consume location body =
      (p.consume location body).mapProgress (under answered failures) := by
  induction body generalizing p with
  | nil =>
    unfold consume
    split <;> rename_i hd
    · rw [if_pos (show p.isComplete = true from hd)]
      rfl
    · rw [if_neg (show ¬p.isComplete = true from hd)]
      rfl
  | cons i body ih =>
    unfold consume
    split <;> rename_i hd
    · rw [if_pos (show p.isComplete = true from hd)]
      rfl
    · rw [if_neg (show ¬p.isComplete = true from hd)]
      cases i with
      | stall => rfl
      | failure e => rfl
      | chunk b =>
        cases b with
        | nil => exact ih p
        | cons b bytes =>
          exact congrArg (Attempt.after (b :: bytes)) (ih (p.pass (b :: bytes)))

theorem accept_under (answered : Bool) (failures : List Failure) (r : Response) :
    (p.under answered failures).accept r = (p.accept r).map (under answered failures) := by
  unfold accept under
  cases p.etag <;> cases r.etag <;> simp only [Except.map, Bool.or_true]
  split <;> simp

/-- Earlier attempts have no influence on what becomes of an answer. -/
theorem answered_under (answered : Bool) (failures : List Failure) (a : Answer) :
    (p.under answered failures).answered location a =
      (p.answered location a).mapProgress (under answered failures) := by
  cases a with
  | silence => rfl
  | failure e => rfl
  | response r =>
    simp only [Progress.answered, accept_under]
    cases p.accept r with
    | error e => rfl
    | ok p' => exact consume_under answered failures r.body p'

/-- An attempt adds nothing to the failures of earlier ones. -/
theorem failures_answered (a : Answer) :
    (p.answered location a).progress.failures = p.failures := by
  have h : (p.under false p.failures).answered location a = _ := answered_under false p.failures a
  exact congrArg (fun a : Attempt => a.progress.failures) h

/-- No chunk of an attempt is empty. -/
theorem nil_notMem_consume (body : List Item) (p : Progress) :
    [] ∉ (p.consume location body).chunks := by
  induction body generalizing p with
  | nil =>
    unfold consume
    split <;> exact List.not_mem_nil
  | cons i body ih =>
    unfold consume
    split
    · exact List.not_mem_nil
    · cases i with
      | stall | failure => exact List.not_mem_nil
      | chunk b =>
        cases b with
        | nil => exact ih p
        | cons b bytes =>
          intro hm
          rcases List.mem_cons.1 hm with hm | hm
          · cases hm
          · exact ih _ hm

theorem nil_notMem_answered (a : Answer) : [] ∉ (p.answered location a).chunks := by
  cases a with
  | silence | failure => exact List.not_mem_nil
  | response r =>
    simp only [Progress.answered]
    split
    · exact nil_notMem_consume _ _
    · exact List.not_mem_nil

end Progress

end QueryResults.Download.Transfer
