import QueryResults.Proofs.Session.Acts
import QueryResults.Proofs.Session.Jobs

/-!
# What holds on every floor

Whatever is done on a floor, its tokens are clear, those of readers were handed out and stand below
a root unless they were renewed, and those of waits are private. What is true of one job on all
floors of a run follows from its own steps and from what the acts of others leave as it is.

## Main definitions

* `Floor.Sound`: what holds on every floor.

## Main results

* `Floor.sound_start`, `Sound.run`: what holds on every floor.
* `Sound.onward_run`: what is kept from one floor to a later one.
* `Sound.job_run`: the induction over the steps of one job among all acts.
-/

namespace QueryResults.Session.Floor

variable {σ : Type}

/-- What holds on every floor. -/
structure Sound (f : Floor σ) : Prop where
  clear : f.tokens.Clear
  handed : ∀ k r, f.reader? k = some r → r.token ∈ f.handed
  below : ∀ k r, f.reader? k = some r → r.renewed = false → f.tokens.Below r.token
  detached : ∀ k r, f.reader? k = some r → r.renewed = true → r.token.above = []
  waits : ∀ (k : Nat) job wait, f.jobs[k]? = some job → job.stage = .waiting wait →
    f.tokens.Private wait.token

variable {session : Session} {connections : Connections σ} {f f' : Floor σ} {a : Act σ} {k : Nat}

theorem Sound.acted (h : f.Sound) (session : Session) (connections : Connections σ) (a : Act σ) :
    Acted session connections f a (f.act session connections a) :=
  Floor.acted (fun k r hr => h.clear.handedIssued _ (h.handed k r hr)) session connections a

theorem sound_start (s : σ) : (start s).Sound where
  clear :=
    { root := rfl
      live := List.not_mem_nil
      rootIssued := Nat.zero_lt_one
      older := fun u hu => by cases hu
      cancelledIssued := fun n hn => by cases hn
      handedIssued := fun u hu => by cases hu
      apart := fun u hu => by cases hu
      unique := List.nodup_nil }
  handed k r hr := by cases hr
  below k r hr := by cases hr
  detached k r hr := by cases hr
  waits k job wait hj := by cases hj

theorem Acted.sound (hd : connections.Discreet) (h : Acted session connections f a f')
    (hf : f.Sound) : f'.Sound := by
  obtain ⟨hclear, honward⟩ := h.onward hd hf.clear
  have hkept {k : Nat} {job : Job} {wait wait' : Wait} (hj : f.jobs[k]? = some job)
      (hstage : job.stage = .waiting wait) (ht : wait'.token = wait.token) :
      f'.tokens.Private wait'.token :=
    ht ▸ (hf.waits k job wait hj hstage).onward honward fun _ => Act.mem_of_mem_cancelled
  refine ⟨hclear, fun k r hr => ?_, fun k r hr hn => ?_, fun k r hr hn => ?_,
    fun k job wait hj hstage => ?_⟩
  · cases h.readerFrom hr with
    | kept r₀ hr₀ ht _ => exact ht ▸ honward.handed.subset (hf.handed k r₀ hr₀)
    | opened _ _ _ he | cleared _ _ _ _ he =>
      change r.token ∈ f'.tokens.handed
      rw [he]
      exact List.mem_append_right _ (List.mem_singleton.2 rfl)
  · cases h.readerFrom hr with
    | kept r₀ hr₀ ht hn₀ => exact ht ▸ (hf.below k r₀ hr₀ (hn₀ ▸ hn)).onward honward
    | opened _ ht _ he =>
      rw [ht, he]
      exact hf.clear.private_below.below
    | cleared _ _ _ hn' _ => exact absurd hn (by rw [hn']; decide)
  · cases h.readerFrom hr with
    | kept r₀ hr₀ ht hn₀ => exact ht ▸ hf.detached k r₀ hr₀ (hn₀ ▸ hn)
    | opened _ _ hn' _ => exact absurd hn (by rw [hn']; decide)
    | cleared _ _ ht _ _ => rw [ht]; rfl
  · cases h.jobFrom hj with
    | kept hj₀ _ => exact hkept hj₀ hstage rfl
    | submitting s _ he => rw [he] at hstage; cases hstage
    | ready handle _ he => rw [he] at hstage; cases hstage
    | proceeded job₀ hj₀ _ hp he =>
      rcases waits_of_proceeded hp hstage with ⟨handle, -, hbegun⟩ | ⟨wait₀, hstage₀, ht, -⟩
      · obtain ⟨rfl, hw⟩ := Prod.mk.inj hbegun
        have hi : f'.interrupts = f.interrupts.operation.2 := congrArg World.interrupts hw
        rw [he, hi]
        exact hf.clear.private_below
      · exact hkept hj₀ hstage₀ ht

theorem Sound.act (hf : f.Sound) (session : Session) (hd : connections.Discreet) (a : Act σ) :
    (f.act session connections a).Sound :=
  (hf.acted session connections a).sound hd hf

/-- What holds on every floor. -/
theorem Sound.run (hf : f.Sound) (session : Session) (hd : connections.Discreet)
    (acts : List (Act σ)) : (f.run session connections acts).Sound := by
  induction acts generalizing f with
  | nil => exact hf
  | cons a acts ih => exact ih (hf.act session hd a)

/-- What is kept of the tokens in the course of acts, and what can be new. -/
theorem Sound.onward_run (hf : f.Sound) (session : Session) (hd : connections.Discreet)
    (acts : List (Act σ)) :
    Tokens.Onward (f.cancelled session connections acts) f.tokens
      (f.run session connections acts).tokens := by
  induction acts generalizing f with
  | nil => exact .refl _
  | cons a acts ih =>
    have hf' := hf.act session hd a
    have hfirst := ((hf.acted session connections a).onward hd hf.clear).2
    exact hfirst.trans (ih hf') hf'.clear (hf'.run session hd acts).clear

/-- What holds of a job at first holds after any acts, if it is kept by what others do and by every
step of the job itself. Its steps are counted. -/
theorem Sound.job_run (hf : f.Sound) (hd : connections.Discreet) {P : Nat → Job → Floor σ → Prop}
    (hother : ∀ {n job g a g'}, g.Sound → Acted session connections g a g' → P n job g →
      P n job g')
    (hown : ∀ {n job job' g a g'}, g.Sound → Acted session connections g a g' →
      job.Proceeded session connections g.world job' g'.world → P n job g → P (n + 1) job' g')
    {n : Nat} {job : Job} (hj : f.jobs[k]? = some job) (h : P n job f) (acts : List (Act σ)) :
    ∃ job', (f.run session connections acts).jobs[k]? = some job' ∧
      P (n + acts.countP (Act.isProceed k)) job' (f.run session connections acts) := by
  induction acts generalizing f n job with
  | nil => exact ⟨job, hj, h⟩
  | cons a acts ih =>
    have hacted := hf.acted session connections a
    obtain ⟨job', hj'⟩ := hacted.exists_job hj
    rw [List.countP_cons]
    cases hacted.jobFrom hj' with
    | kept hj₀ ha =>
      cases hj.symm.trans hj₀
      rw [ha]
      exact ih (hf.act session hd a) hj' (hother hf hacted h)
    | submitting s hnone _ | ready handle hnone _ =>
      rw [hnone] at hj
      cases hj
    | proceeded job₀ hj₀ ha hp _ =>
      cases hj.symm.trans hj₀
      rw [ha, if_pos rfl, Nat.add_comm _ 1, ← Nat.add_assoc]
      exact ih (hf.act session hd a) hj' (hown hf hacted hp h)

theorem run_concat (session : Session) (connections : Connections σ) (f : Floor σ)
    (acts : List (Act σ)) (a : Act σ) :
    f.run session connections (acts ++ [a]) =
      (f.run session connections acts).act session connections a := by
  rw [run, List.foldl_append]
  rfl

end QueryResults.Session.Floor
