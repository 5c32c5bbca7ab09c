import QueryResults.Proofs.Session.Floor

/-!
# Jobs, step by step

What one step makes of a job, whatever else happens on the floor. Two things are followed: what a
job has asked of the service, and what becomes of it once the token of its wait is cancelled. A
pause under a cancelled token ends the job at once, and a check under way either ends it or is
followed by a pause; so a wait that is interrupted makes at most one more check.

## Main definitions

* `Job.Accounted`: what a job has asked of the service, by where it stands.
* `Job.Winding`, `Job.WoundUp`: what becomes of a wait whose token is cancelled.

## Main results

* `Job.Accounted.proceeded`, `Job.Winding.proceeded`: what a step keeps.
* `interrupted_of_proceeded`: only a cancelled token ends a job without a status.
-/

namespace QueryResults.Session

variable {σ : Type} {session : Session} {connections : Connections σ} {w w' : World σ}
  {job job' : Job}

/-! ### Stages -/

/-- Whether a job is still to submit its query. -/
def Stage.isSubmitting : Stage → Bool
  | submitting _ => true
  | _ => false

/-- Whether a wait has begun. -/
def Stage.hasBegun : Stage → Bool
  | waiting _ | done _ => true
  | _ => false

/-- Whether a job has ended without a status, as interrupted. -/
def Stage.isInterrupted : Stage → Bool
  | done (.ok none) => true
  | _ => false

/-- The query that a job waits for. -/
def Stage.handle? : Stage → Option Handle
  | ready handle => some handle
  | waiting wait => some wait.handle
  | _ => none

/-- A wait has begun just now, or goes on under its token. -/
theorem waits_of_proceeded {wait' : Wait} (h : job.Proceeded session connections w job' w')
    (hstage' : job'.stage = .waiting wait') :
    (∃ handle, job.stage = .ready handle ∧ (wait', w') = beginWait handle w) ∨
      ∃ wait, job.stage = .waiting wait ∧ wait'.token = wait.token ∧
        wait'.handle = wait.handle := by
  cases h with
  | begun handle hstage =>
    cases hstage'
    exact .inl ⟨handle, hstage, rfl⟩
  | woken wait hstage _ _ | checked wait _ _ hstage _ _ _ =>
    cases hstage'
    exact .inr ⟨wait, hstage, rfl, rfl⟩
  | refused | submitted | stopped | ended => cases hstage'
  | idle result hstage =>
    rw [hstage] at hstage'
    cases hstage'

/-- A job that has ended does nothing more. -/
theorem eq_of_proceeded_done {result : Except Failure (Option Execution.Status)}
    (hdone : job.stage = .done result)
    (hp : job.Proceeded session connections w job' w') : job' = job := by
  cases hp with
  | refused _ _ hstage | submitted _ _ hstage | begun _ hstage | woken _ hstage
  | stopped _ hstage | checked _ _ _ hstage | ended _ _ _ hstage =>
    rw [hdone] at hstage
    cases hstage
  | idle => rfl

theorem hasBegun_of_proceeded (hbegun : job.stage.hasBegun = true)
    (hp : job.Proceeded session connections w job' w') : job'.stage.hasBegun = true := by
  cases hp with
  | refused _ _ hstage | submitted _ _ hstage =>
    rw [hstage] at hbegun
    cases hbegun
  | idle => exact hbegun
  | _ => rfl

/-- Only a cancelled token ends a job without a status. -/
theorem interrupted_of_proceeded (hp : job.Proceeded session connections w job' w')
    (hdone : job'.stage = .done (.ok none)) :
    job.stage = .done (.ok none) ∨
      ∃ wait, job.stage = .waiting wait ∧ w.isCancelled wait.token = true := by
  cases hp with
  | stopped wait hstage hpaused hw => exact .inr ⟨wait, hstage, hw⟩
  | ended wait answer result => cases result <;> cases hdone
  | idle => exact .inl hdone
  | refused | submitted | begun | woken | checked => cases hdone

/-! ### Accounts -/

/-- An errand has to do with no other query. -/
def Errand.Concerns (handle : Handle) : Errand → Prop
  | submitted _ => True
  | checked h _ => h = handle
  | stopped h => h = handle

/-- What a job has asked of the service, by where it stands. -/
structure Job.Accounted (job : Job) : Prop where
  /-- A query is submitted once. -/
  submissions : job.errands.countP Errand.isSubmission =
    if job.submits && !job.stage.isSubmitting then 1 else 0
  /-- An interrupted wait has stopped its query once; nobody else has stopped any. -/
  stops : job.errands.countP Errand.isStop = if job.stage.isInterrupted then 1 else 0
  /-- A job has to do with one query only. -/
  single : ∃ handle, (∀ h ∈ job.stage.handle?, h = handle) ∧
    ∀ e ∈ job.errands, e.Concerns handle
  unsubmitted : job.stage.isSubmitting = true → job.submits = true ∧ job.errands = []

theorem isInterrupted_map (result : Except Failure Execution.Status) :
    (Stage.done (result.map some)).isInterrupted = false := by
  cases result <;> rfl

namespace Job.Accounted

/-- With its submission a job has asked for nothing else. -/
theorem submitted (h : job.Accounted) (hsubmitting : job.stage.isSubmitting = true)
    (s : Submission) {stage : Stage} (hstage : stage.isSubmitting = false)
    (hinterrupted : stage.isInterrupted = false) :
    Accounted { job with stage, errands := job.errands ++ [.submitted s] } := by
  obtain ⟨hsubmits, herrands⟩ := h.unsubmitted hsubmitting
  exact
    { submissions := by simp [herrands, hsubmits, hstage, Errand.isSubmission]
      stops := by simp [herrands, hinterrupted, Errand.isStop]
      single := by
        refine ⟨stage.handle?.getD "", fun h hh => ?_, fun e he => ?_⟩
        · rw [show stage.handle? = some h from hh, Option.getD_some]
        · rw [herrands, List.nil_append, List.mem_singleton] at he
          rw [he]
          trivial
      unsubmitted := fun hs => by rw [hstage] at hs; cases hs }

/-- A job that waits for a query, or is about to, asks for nothing but this query. -/
theorem goOn (h : job.Accounted) {handle : Handle} (hhandle : job.stage.handle? = some handle)
    {stage : Stage} (hstage : stage.isSubmitting = false)
    (hwaits : ∀ h ∈ stage.handle?, h = handle) {errands : List Errand}
    (hsubmissions : errands.countP Errand.isSubmission = 0)
    (hstops : errands.countP Errand.isStop = if stage.isInterrupted then 1 else 0)
    (hconcerns : ∀ e ∈ errands, e.Concerns handle) :
    Accounted { job with stage, errands := job.errands ++ errands } := by
  obtain ⟨hsubmitting, hinterrupted⟩ :
      job.stage.isSubmitting = false ∧ job.stage.isInterrupted = false := by
    cases hs : job.stage with
    | ready | waiting => exact ⟨rfl, rfl⟩
    | submitting | done =>
      rw [hs] at hhandle
      cases hhandle
  obtain ⟨handle', hsame, hbefore⟩ := h.single
  obtain rfl := hsame handle hhandle
  exact
    { submissions := by
        rw [List.countP_append, hsubmissions, h.submissions, hsubmitting, hstage]
        rfl
      stops := by
        rw [List.countP_append, hstops, h.stops, hinterrupted]
        exact Nat.zero_add _
      single :=
        ⟨handle, hwaits, fun e he => (List.mem_append.1 he).elim (hbefore e) (hconcerns e)⟩
      unsubmitted := fun hs => by rw [hstage] at hs; cases hs }

/-- A wait that goes on without asking for anything. -/
theorem waits (h : job.Accounted) {handle : Handle} (hhandle : job.stage.handle? = some handle)
    (wait : Wait) (hwait : wait.handle = handle) :
    Accounted { job with stage := .waiting wait } := by
  have hwaits : ∀ h ∈ (Stage.waiting wait).handle?, h = handle := fun h hh =>
    (Option.some.inj hh).symm.trans hwait
  have hmore := h.goOn hhandle rfl hwaits rfl rfl fun e he => (List.not_mem_nil he).elim
  rwa [List.append_nil] at hmore

/-- A step of a job keeps its account in order. -/
theorem proceeded (h : job.Accounted) (hp : job.Proceeded session connections w job' w') :
    job'.Accounted := by
  have hone {e : Errand} {handle : Handle} (he : e.Concerns handle) :
      ∀ e' ∈ [e], e'.Concerns handle := fun e' he' => List.mem_singleton.1 he' ▸ he
  cases hp with
  | refused s e hstage hsubmit => exact h.submitted (by rw [hstage]; rfl) _ rfl rfl
  | submitted s handle hstage hsubmit => exact h.submitted (by rw [hstage]; rfl) _ rfl rfl
  | begun handle hstage =>
    exact h.waits (by rw [hstage]; rfl) (beginWait handle w).1 rfl
  | woken wait hstage hpaused hw =>
    exact h.waits (by rw [hstage]; rfl) { wait with attempt := wait.attempt + 1, paused := false }
      rfl
  | stopped wait hstage hpaused hw =>
    exact h.goOn (by rw [hstage]; rfl) rfl (fun h hh => by cases hh) rfl rfl (hone rfl)
  | checked wait answer span hstage hpaused hstatus hjudge =>
    have hwaits : ∀ h ∈ (Stage.waiting { wait with paused := true }).handle?, h = wait.handle :=
      fun h hh => (Option.some.inj hh).symm
    exact h.goOn (by rw [hstage]; rfl) rfl hwaits rfl rfl (hone rfl)
  | ended wait answer result hstage hpaused hstatus hjudge =>
    exact h.goOn (by rw [hstage]; rfl) rfl (fun h hh => by cases hh) rfl
      (by rw [isInterrupted_map]; rfl) (hone rfl)
  | idle result hstage => exact h

end Job.Accounted

/-- A job that is about to begin. -/
theorem Job.Accounted.fresh (stage : Stage) (submits : Bool) (hbegun : stage.hasBegun = false)
    (hsubmits : submits = stage.isSubmitting) : Accounted { stage, submits } where
  submissions := by rw [hsubmits, Bool.and_not_self]; rfl
  stops := by
    cases stage with
    | done => cases hbegun
    | _ => rfl
  single := ⟨stage.handle?.getD "", fun h hh => by
    rw [show stage.handle? = some h from hh, Option.getD_some], fun e he => by cases he⟩
  unsubmitted hs := ⟨hsubmits.trans hs, rfl⟩

/-! ### Interrupted waits -/

/-- A check finds that the query has ended, or fails itself. -/
def Final (answer : Except Failure Execution.Status) : Prop :=
  ∀ status, answer = .ok status → status.state.isTerminal = true

variable {answer : Except Failure Execution.Status} {attempt : Nat}

theorem exists_of_judge_eq_wait {span : Duration}
    (h : Polling.judge session.pacing attempt (answer.map Execution.Status.outcome) =
      .wait span) :
    ∃ status, answer = .ok status ∧ status.state.isTerminal = false := by
  cases answer with
  | error e => cases h
  | ok status =>
    refine ⟨status, rfl, (Execution.Status.outcome_eq_pending_iff status).1 ?_⟩
    cases ho : status.outcome with
    | pending => rfl
    | _ =>
      simp only [Except.map, ho, Polling.judge] at h
      cases h

theorem final_of_judge_eq_finish {result : Except Failure Execution.Status}
    (h : Polling.judge session.pacing attempt (answer.map Execution.Status.outcome) =
      .finish result) : Final answer := by
  rintro status rfl
  by_contra hterminal
  rw [Bool.not_eq_true, ← Execution.Status.outcome_eq_pending_iff] at hterminal
  simp only [Except.map, hterminal, Polling.judge] at h
  cases h

/-- A job whose wait is under a cancelled token, after so many steps of its own. -/
inductive Job.Winding (session : Session) (job : Job) (wait : Wait) : Nat → Job → Prop
  | untouched : Winding session job wait 0 job
  | checked (status : Execution.Status) (hpaused : wait.paused = false) :
      Winding session job wait 1
        { job with
          stage := .waiting { wait with paused := true }
          errands := job.errands ++ [.checked wait.handle (.ok status)] }
  | stopped (n : Nat) (checks : List Errand)
      (hchecks : checks.countP Errand.isCheck ≤ if wait.paused then 0 else 1) :
      Winding session job wait (n + 1)
        { job with
          stage := .done (.ok none)
          errands := job.errands ++ checks ++ [.stopped wait.handle] }
  | ended (n : Nat) (answer : Except Failure Execution.Status)
      (result : Except Failure Execution.Status) (hpaused : wait.paused = false)
      (hjudge : Polling.judge session.pacing wait.attempt
        (answer.map Execution.Status.outcome) = .finish result) :
      Winding session job wait (n + 1)
        { job with
          stage := .done (result.map some)
          errands := job.errands ++ [.checked wait.handle answer] }

variable {wait : Wait} {n : Nat} {job₀ : Job}

theorem Job.Winding.proceeded (h : Winding session job₀ wait n job)
    (hstage₀ : job₀.stage = .waiting wait) (hw : w.isCancelled wait.token = true)
    (hp : job.Proceeded session connections w job' w') :
    Winding session job₀ wait (n + 1) job' := by
  cases h with
  | untouched =>
    cases hp with
    | refused _ _ hstage | submitted _ _ hstage | begun _ hstage | idle _ hstage =>
      rw [hstage₀] at hstage
      cases hstage
    | woken wait' hstage hpaused hcut =>
      rw [hstage₀] at hstage
      cases hstage
      rw [hw] at hcut
      cases hcut
    | stopped wait' hstage hpaused hcut =>
      rw [hstage₀] at hstage
      cases hstage
      have hstopped : Winding session job wait 1
          { job with
            stage := .done (.ok none)
            errands := job.errands ++ [] ++ [.stopped wait.handle] } :=
        .stopped 0 [] (Nat.zero_le _)
      rwa [List.append_nil] at hstopped
    | checked wait' answer span hstage hpaused hstatus hjudge =>
      rw [hstage₀] at hstage
      cases hstage
      obtain ⟨status, rfl, -⟩ := exists_of_judge_eq_wait hjudge
      exact .checked status hpaused
    | ended wait' answer result hstage hpaused hstatus hjudge =>
      rw [hstage₀] at hstage
      cases hstage
      exact .ended 0 answer result hpaused hjudge
  | checked status hpaused₀ =>
    cases hp with
    | refused _ _ hstage | submitted _ _ hstage | begun _ hstage | idle _ hstage => cases hstage
    | woken wait' hstage hpaused hcut =>
      cases hstage
      rw [show w.isCancelled _ = true from hw] at hcut
      cases hcut
    | stopped wait' hstage hpaused hcut =>
      cases hstage
      exact .stopped 1 [.checked wait.handle (.ok status)] (by rw [hpaused₀]; rfl)
    | checked wait' answer span hstage hpaused hstatus hjudge =>
      cases hstage
      cases hpaused
    | ended wait' answer result hstage hpaused hstatus hjudge =>
      cases hstage
      cases hpaused
  | stopped n checks hchecks =>
    rw [eq_of_proceeded_done rfl hp]
    exact .stopped (n + 1) checks hchecks
  | ended n answer result hpaused hjudge =>
    rw [eq_of_proceeded_done rfl hp]
    exact .ended (n + 1) answer result hpaused hjudge

/-- What has become of a job since its wait was interrupted, after so many steps of its own. -/
structure Job.WoundUp (session : Session) (job : Job) (wait : Wait) (n : Nat) (job' : Job) :
    Prop where
  /-- At most one more check is made, and none if the wait was between two checks. -/
  checks : job'.errands.countP Errand.isCheck ≤
    job.errands.countP Errand.isCheck + if wait.paused then 0 else 1
  /-- The job ends without a status, unless that check finds an end or fails. -/
  result : ∀ result, job'.stage = .done result → result = .ok none ∨
    wait.paused = false ∧ ∃ answer r, Final answer ∧
      Polling.judge session.pacing wait.attempt (answer.map Execution.Status.outcome) =
        .finish r ∧ result = r.map some ∧
      job'.errands = job.errands ++ [.checked wait.handle answer]
  /-- It ends with its second step at the latest. -/
  ends : (if wait.paused then 1 else 2) ≤ n → ∃ result, job'.stage = .done result

theorem Job.Winding.woundUp (h : Winding session job₀ wait n job)
    (hstage₀ : job₀.stage = .waiting wait) : job₀.WoundUp session wait n job := by
  cases h with
  | untouched =>
    exact
      { checks := Nat.le_add_right _ _
        result := fun result hr => by
          rw [hstage₀] at hr
          cases hr
        ends := fun hn => by split at hn <;> cases hn }
  | checked status hpaused =>
    exact
      { checks := by
          rw [List.countP_append, hpaused]
          exact Nat.le_refl _
        result := fun result hr => by cases hr
        ends := fun hn => by
          rw [hpaused] at hn
          exact absurd hn (by decide) }
  | stopped n checks hchecks =>
    exact
      { checks := by
          rw [List.countP_append, List.countP_append]
          exact Nat.add_le_add_left hchecks _
        result := fun result hr => by
          cases hr
          exact .inl rfl
        ends := fun _ => ⟨_, rfl⟩ }
  | ended n answer result hpaused hjudge =>
    exact
      { checks := by
          rw [List.countP_append, hpaused]
          exact Nat.le_refl _
        result := fun result' hr => by
          cases hr
          exact .inr ⟨hpaused, answer, result, final_of_judge_eq_finish hjudge, hjudge, rfl, rfl⟩
        ends := fun _ => ⟨_, rfl⟩ }

end QueryResults.Session
