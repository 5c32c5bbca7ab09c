import QueryResults.Proofs.Cursor.Calls
import QueryResults.Proofs.Service.Log
import QueryResults.Session

/-!
# A session at work

Many queries are submitted and waited for in one session at a time, and many results are read. All
that the parties share are the services and the interrupts. A *floor* is all of this at one moment:
the readers that were opened, the jobs that submit and wait, and the roots that calls of `interrupt`
have taken away but not cancelled yet. The parties act in any order.

A job goes on step by step, and so does a call of `interrupt`: it takes the root away and puts a new
one in its place, and cancels the old one later, whatever happens in between. A call of a reader is
one act; who interrupts it while it waits is the service, which sees the interrupts.

## Main definitions

* `Session.Stage`, `Session.Stage.work`: where a job stands, and its next step.
* `Session.Errand`, `Service.ledgered`, `Session.Job`: a job with what it has asked of the service.
* `Session.Reader`, `Session.Floor`, `Session.Act`, `Floor.act`, `Floor.run`.

## Main results

* `Session.exists_work_of_execute`: a job left alone does what executing a query does.
* `Job.proceed_eq`: what is noted of a job has no influence on it.
* `Floor.struck_replaced`: both halves of a call of `interrupt`, one after the other.
-/

namespace QueryResults

variable {σ : Type}

/-! ### Jobs -/

namespace Session

/-- Where a job stands. -/
inductive Stage where
  /-- A query is to be submitted and then waited for. -/
  | submitting (s : Submission)
  /-- The wait for a query is to begin. -/
  | ready (handle : Handle)
  | waiting (wait : Wait)
  | done (result : Except Failure (Option Execution.Status))

/-- The next step of a job. -/
def Stage.work (session : Session) (connections : Connections σ) (stage : Stage) (w : World σ) :
    Stage × World σ :=
  match stage with
  | submitting s =>
    match session.submit connections s w with
    | (.error e, w) => (.done (.error e), w)
    | (.ok handle, w) => (.ready handle, w)
  | ready handle =>
    let (wait, w) := beginWait handle w
    (.waiting wait, w)
  | waiting wait =>
    match session.step connections wait w with
    | (.goesOn wait, w) => (.waiting wait, w)
    | (.ended result, w) => (.done result, w)
  | done result => (.done result, w)

/-- So many steps of a job, with nothing in between. -/
def Stage.workFor (session : Session) (connections : Connections σ) :
    Nat → Stage → World σ → Stage × World σ
  | 0, stage, w => (stage, w)
  | n + 1, stage, w =>
    let (stage, w) := stage.work session connections w
    workFor session connections n stage w

variable {session : Session} {connections : Connections σ} {w w' : World σ}
  {result : Except Failure (Option Execution.Status)}

theorem exists_work_of_finishWait {limit : Nat} {wait : Wait}
    (h : session.finishWait connections limit wait w = some (result, w')) :
    ∃ n, Stage.workFor session connections n (.waiting wait) w = (.done result, w') := by
  induction limit generalizing wait w with
  | zero => cases h
  | succ limit ih =>
    unfold finishWait at h
    split at h
    · rename_i r w₁ hs
      cases h
      exact ⟨1, by simp only [Stage.workFor, Stage.work, hs]⟩
    · rename_i wait₁ w₁ hs
      obtain ⟨n, hn⟩ := ih h
      exact ⟨n + 1, by simpa only [Stage.workFor, Stage.work, hs] using hn⟩

theorem exists_work_of_wait {limit : Nat} {handle : Handle}
    (h : session.wait connections limit handle w = some (result, w')) :
    ∃ n, Stage.workFor session connections n (.ready handle) w = (.done result, w') := by
  obtain ⟨n, hn⟩ := exists_work_of_finishWait h
  exact ⟨n + 1, hn⟩

/-- A job that is left alone does what submitting a query and waiting for it does. -/
theorem exists_work_of_execute {limit : Nat} {s : Submission}
    (h : session.execute connections limit s w = some (result, w')) :
    ∃ n, Stage.workFor session connections n (.submitting s) w = (.done result, w') := by
  unfold execute at h
  split at h
  · rename_i e w₁ hs
    cases h
    exact ⟨1, by simp only [Stage.workFor, Stage.work, hs]⟩
  · rename_i handle w₁ hs
    obtain ⟨n, hn⟩ := exists_work_of_wait h
    exact ⟨n + 1, by simpa only [Stage.workFor, Stage.work, hs] using hn⟩

/-- What a job has asked of the service, with the answer to a check. -/
inductive Errand where
  | submitted (s : Submission)
  | checked (handle : Handle) (answer : Except Failure Execution.Status)
  | stopped (handle : Handle)

/-- Whether a query was submitted. -/
def Errand.isSubmission : Errand → Bool
  | submitted _ => true
  | _ => false

/-- Whether the status of a query was asked for. -/
def Errand.isCheck : Errand → Bool
  | checked _ _ => true
  | _ => false

/-- Whether a query was stopped. -/
def Errand.isStop : Errand → Bool
  | stopped _ => true
  | _ => false

end Session

open Session (Errand)

/-- Notes an errand. -/
def World.note (e : Errand) (w : World (σ × List Errand)) : World (σ × List Errand) :=
  { w with outside := (w.outside.1, w.outside.2 ++ [e]) }

/-- The same service with a ledger of the errands. Requests for pages are none. -/
def Service.ledgered (service : Service (World σ)) : Service (World (σ × List Errand)) where
  submit s w :=
    let (answer, w) := World.inner (service.submit s) w
    (answer, w.note (.submitted s))
  status h w :=
    let (answer, w) := World.inner (service.status h) w
    (answer, w.note (.checked h answer))
  stop h w :=
    let (answer, w) := World.inner (service.stop h) w
    (answer, w.note (.stopped h))
  request r := World.inner (service.request r)
  receive t := World.inner (service.receive t)
  abandon t w := (World.inner (fun v => ((), service.abandon t v)) w).2

/-- The connections of a job, with a ledger. A job asks nothing of the object store. -/
def Connections.ledgered (connections : Connections σ) : Connections (σ × List Errand) where
  service := connections.service.ledgered

namespace Session

/-- A job, with what it has asked of the service so far. -/
structure Job where
  stage : Stage
  errands : List Errand := []
  /-- Whether the job is to submit a query, or only to wait for one. -/
  submits : Bool

/-- The next step of a job, with what it asks of the service. -/
def Job.proceed (session : Session) (connections : Connections σ) (job : Job) (w : World σ) :
    Job × World σ :=
  let (stage, v) := job.stage.work session connections.ledgered
    { interrupts := w.interrupts, outside := (w.outside, []) }
  ({ job with stage, errands := job.errands ++ v.outside.2 },
    { interrupts := v.interrupts, outside := v.outside.1 })

/-- What a step of a job does, and what is noted of it. -/
inductive Job.Proceeded (session : Session) (connections : Connections σ) (job : Job)
    (w : World σ) : Job → World σ → Prop
  | refused (s : Submission) (e : Failure) {w' : World σ} (hstage : job.stage = .submitting s)
      (hsubmit : session.submit connections s w = (.error e, w')) :
      Proceeded session connections job w
        { job with
          stage := .done (.error e)
          errands := job.errands ++ [.submitted (s.withDefaults session.defaults)] } w'
  | submitted (s : Submission) (handle : Handle) {w' : World σ}
      (hstage : job.stage = .submitting s)
      (hsubmit : session.submit connections s w = (.ok handle, w')) :
      Proceeded session connections job w
        { job with
          stage := .ready handle
          errands := job.errands ++ [.submitted (s.withDefaults session.defaults)] } w'
  | begun (handle : Handle) (hstage : job.stage = .ready handle) :
      Proceeded session connections job w
        { job with stage := .waiting (beginWait handle w).1 } (beginWait handle w).2
  /-- A pause is over. -/
  | woken (wait : Wait) (hstage : job.stage = .waiting wait) (hpaused : wait.paused = true)
      (hw : w.isCancelled wait.token = false) :
      Proceeded session connections job w
        { job with stage := .waiting { wait with attempt := wait.attempt + 1, paused := false } } w
  /-- A pause was cut short. -/
  | stopped (wait : Wait) (hstage : job.stage = .waiting wait) (hpaused : wait.paused = true)
      (hw : w.isCancelled wait.token = true) :
      Proceeded session connections job w
        { job with
          stage := .done (.ok none)
          errands := job.errands ++ [.stopped wait.handle] }
        (connections.service.stop wait.handle w).2
  | checked (wait : Wait) (answer : Except Failure Execution.Status) (span : Duration)
      {w' : World σ} (hstage : job.stage = .waiting wait) (hpaused : wait.paused = false)
      (hstatus : connections.service.status wait.handle w = (answer, w'))
      (hjudge : Polling.judge session.pacing wait.attempt (answer.map Execution.Status.outcome) =
        .wait span) :
      Proceeded session connections job w
        { job with
          stage := .waiting { wait with paused := true }
          errands := job.errands ++ [.checked wait.handle answer] } w'
  | ended (wait : Wait) (answer : Except Failure Execution.Status)
      (result : Except Failure Execution.Status) {w' : World σ}
      (hstage : job.stage = .waiting wait) (hpaused : wait.paused = false)
      (hstatus : connections.service.status wait.handle w = (answer, w'))
      (hjudge : Polling.judge session.pacing wait.attempt (answer.map Execution.Status.outcome) =
        .finish result) :
      Proceeded session connections job w
        { job with
          stage := .done (result.map some)
          errands := job.errands ++ [.checked wait.handle answer] } w'
  | idle (result : Except Failure (Option Execution.Status)) (hstage : job.stage = .done result) :
      Proceeded session connections job w job w

theorem Job.proceeded (session : Session) (connections : Connections σ) (job : Job)
    (w : World σ) :
    Proceeded session connections job w (job.proceed session connections w).1
      (job.proceed session connections w).2 := by
  obtain ⟨stage, errands, submits⟩ := job
  cases stage with
  | submitting s =>
    cases hsubmit : connections.service.submit (s.withDefaults session.defaults) w with
    | mk answer w' =>
      cases answer with
      | error e =>
        simp only [Job.proceed, Stage.work, submit, Connections.ledgered, Service.ledgered,
          World.inner, hsubmit]
        exact .refused s e rfl hsubmit
      | ok handle =>
        simp only [Job.proceed, Stage.work, submit, Connections.ledgered, Service.ledgered,
          World.inner, hsubmit]
        exact .submitted s handle rfl hsubmit
  | ready handle =>
    have hbegun : Proceeded session connections ⟨.ready handle, errands, submits⟩ w
        ⟨.waiting (beginWait handle w).1, errands, submits⟩ (beginWait handle w).2 :=
      .begun handle rfl
    simpa only [Job.proceed, Stage.work, beginWait, World.token, List.append_nil] using hbegun
  | waiting wait =>
    cases hpaused : wait.paused with
    | true =>
      cases hw : w.isCancelled wait.token with
      | true =>
        have hcut : ({ interrupts := w.interrupts, outside := (w.outside, []) } :
            World (σ × List Errand)).isCancelled wait.token = true := hw
        simp only [Job.proceed, Stage.work, step, hpaused, hcut, if_true]
        exact .stopped wait rfl hpaused hw
      | false =>
        have hcut : ({ interrupts := w.interrupts, outside := (w.outside, []) } :
            World (σ × List Errand)).isCancelled wait.token = false := hw
        simp only [Job.proceed, Stage.work, step, hpaused, hcut, if_true, Bool.false_eq_true,
          if_false, List.append_nil]
        exact .woken wait rfl hpaused hw
    | false =>
      cases hstatus : connections.service.status wait.handle w with
      | mk answer w' =>
        cases hjudge : Polling.judge session.pacing wait.attempt
            (answer.map Execution.Status.outcome) with
        | wait span =>
          simp only [Job.proceed, Stage.work, step, hpaused, Connections.ledgered,
            Service.ledgered, World.inner, hstatus, hjudge, Bool.false_eq_true, if_false]
          exact .checked wait answer span rfl hpaused hstatus hjudge
        | finish result =>
          simp only [Job.proceed, Stage.work, step, hpaused, Connections.ledgered,
            Service.ledgered, World.inner, hstatus, hjudge, Bool.false_eq_true, if_false]
          exact .ended wait answer result rfl hpaused hstatus hjudge
  | done result =>
    simp only [Job.proceed, Stage.work, List.append_nil]
    exact .idle result rfl

/-- The ledger has no influence on a job. -/
theorem Job.proceed_eq (session : Session) (connections : Connections σ) (job : Job)
    (w : World σ) :
    ((job.proceed session connections w).1.stage, (job.proceed session connections w).2) =
      job.stage.work session connections w := by
  have h := job.proceeded session connections w
  generalize (job.proceed session connections w).1 = job', (job.proceed session connections w).2 =
    w' at h
  cases h with
  | refused s e hstage hsubmit => simp only [Stage.work, hstage, hsubmit]
  | submitted s handle hstage hsubmit => simp only [Stage.work, hstage, hsubmit]
  | begun handle hstage => simp only [Stage.work, hstage]
  | woken wait hstage hpaused hw =>
    simp only [Stage.work, hstage, step, hpaused, hw, if_true, Bool.false_eq_true, if_false]
  | stopped wait hstage hpaused hw => simp only [Stage.work, hstage, step, hpaused, hw, if_true]
  | checked wait answer span hstage hpaused hstatus hjudge =>
    simp only [Stage.work, hstage, step, hpaused, hstatus, hjudge, Bool.false_eq_true, if_false]
  | ended wait answer result hstage hpaused hstatus hjudge =>
    simp only [Stage.work, hstage, step, hpaused, hstatus, hjudge, Bool.false_eq_true, if_false]
  | idle result hstage => simp only [Stage.work, hstage]

/-! ### Floors -/

/-- A reader of a result, and whether its token is another than it was opened with. -/
structure Reader where
  cursor : Cursor
  renewed : Bool := false

/-- The token that interrupts a reader. -/
def Reader.token (r : Reader) : Token := r.cursor.interrupt

/-- Everything that is under way in a session. -/
structure Floor (σ : Type) where
  world : World σ
  /-- The readers in the order in which they were opened; none where one was closed. -/
  readers : List (Option Reader) := []
  /-- The tokens that readers have had, which anybody may cancel. -/
  handed : List Token := []
  jobs : List Job := []
  /-- The roots that were taken away and are still to be cancelled. -/
  retired : List Token := []

/-- What is done on a floor. -/
inductive Act (σ : Type) where
  /-- A result is opened. -/
  | openResult (status : Execution.Status)
  /-- A reader is called. -/
  | call (k : Nat) (x : Cursor.Call)
  /-- A reader is closed. -/
  | close (k : Nat)
  /-- A token of a reader is cancelled. -/
  | cancel (n : Nat)
  /-- A call of `interrupt` puts a new root in place. -/
  | replace
  /-- A call of `interrupt` cancels the root that it has taken away, and returns. -/
  | strike (n : Nat)
  /-- A query is to be executed. -/
  | execute (s : Submission)
  /-- A query is to be waited for. -/
  | wait (handle : Handle)
  /-- A job goes on. -/
  | proceed (k : Nat)
  /-- The services change. -/
  | meanwhile (f : σ → σ)

namespace Floor

/-- A floor on which nothing has begun. -/
def start (s : σ) : Floor σ := { world := { outside := s } }

/-- The interrupts. -/
def interrupts (f : Floor σ) : Interrupts := f.world.interrupts

/-- A reader that was opened and not closed. -/
def reader? (f : Floor σ) (k : Nat) : Option Reader := f.readers[k]?.join

/-- The floor with one more reader. -/
def withReader (f : Floor σ) (cursor : Cursor) (world : World σ) : Floor σ :=
  { f with
    world
    readers := f.readers ++ [some { cursor }]
    handed := f.handed ++ [cursor.interrupt] }

/-- The floor after a call of a reader. A new token is handed out. -/
def keep (f : Floor σ) (k : Nat) (r : Reader) (cursor : Cursor) (world : World σ) : Floor σ :=
  if cursor.interrupt = r.token then
    { f with world, readers := f.readers.set k (some { r with cursor }) }
  else
    { f with
      world
      readers := f.readers.set k (some { cursor, renewed := true })
      handed := f.handed ++ [cursor.interrupt] }

/-- The floor with a new root. -/
def replaced (f : Floor σ) : Floor σ :=
  { f with
    world := f.world.onInterrupts Interrupts.replace
    retired := f.retired ++ [f.interrupts.root] }

/-- The floor when a root that was taken away is cancelled. -/
def struck (n : Nat) (f : Floor σ) : Floor σ :=
  match f.retired[n]? with
  | none => f
  | some t =>
    { f with
      world := f.world.onInterrupts (·.cancel t)
      retired := f.retired.eraseIdx n }

/-- The floor after a whole call of `interrupt`. -/
def interrupted (f : Floor σ) : Floor σ :=
  { f with world := f.world.onInterrupts Interrupts.interruptAll }

/-- A call of `interrupt` of which both halves come one after the other. -/
theorem struck_replaced (f : Floor σ) : f.replaced.struck f.retired.length = f.interrupted := by
  simp only [struck, replaced, List.getElem?_concat_length]
  simp only [interrupted, List.eraseIdx_append_of_length_le (Nat.le_refl _), Nat.sub_self,
    List.eraseIdx_cons_zero, List.append_nil]
  rfl

variable (session : Session) (connections : Connections σ)

/-- The floor after an act. Nothing comes of an act for a reader, a job or a token that is not
there, nor of a call that does not come back. -/
def act (f : Floor σ) : Act σ → Floor σ
  | .openResult status =>
    match session.openResult connections status f.world with
    | (.error _, world) => { f with world }
    | (.ok cursor, world) => f.withReader cursor world
  | .call k x =>
    match f.reader? k with
    | none => f
    | some r =>
      match r.cursor.call connections f.world x with
      | none => f
      | some (_, cursor, world) => f.keep k r cursor world
  | .close k =>
    match f.reader? k with
    | none => f
    | some r =>
      { f with world := r.cursor.close connections f.world, readers := f.readers.set k none }
  | .cancel n =>
    match f.handed[n]? with
    | none => f
    | some t => { f with world := f.world.onInterrupts (·.cancel t) }
  | .replace => f.replaced
  | .strike n => f.struck n
  | .execute s => { f with jobs := f.jobs ++ [{ stage := .submitting s, submits := true }] }
  | .wait handle => { f with jobs := f.jobs ++ [{ stage := .ready handle, submits := false }] }
  | .proceed k =>
    match f.jobs[k]? with
    | none => f
    | some job =>
      let (job, world) := job.proceed session connections f.world
      { f with world, jobs := f.jobs.set k job }
  | .meanwhile g => { f with world := { f.world with outside := g f.world.outside } }

/-- The floor after acts in any order. -/
def run (f : Floor σ) (acts : List (Act σ)) : Floor σ := acts.foldl (act session connections) f

end Floor

end Session

end QueryResults
