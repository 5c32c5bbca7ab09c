import QueryResults.Proofs.Session.Jobs
import QueryResults.Proofs.Session.Sound

/-!
# What an interrupt does, and to whom it does nothing

Everything that begins gets a token below the root that is in place, so a call of `interrupt` can
only concern what had begun before. As long as the root stays, no wait that begins is interrupted,
and the token of a reader that is opened is cancelled only if somebody cancels this very token.

Once a call of `interrupt` has returned, a wait that had begun makes at most one more check.
Interrupted waits, and no others, have stopped their query, each of them once, whatever the service
answered.

## Main definitions

* `Job.Calm`: jobs whose waits began while the root stayed.
* `Floor.Contained`: what holds of interrupts.

## Main results

* `Sound.since_reader`, `Sound.calm`: what is opened or begins while the root stays.
* `Sound.woundUp`: what becomes of a wait that is interrupted.
* `Floor.interrupt_contained`.
-/

namespace QueryResults.Session

variable {σ : Type} {session : Session} {connections : Connections σ} {job job' : Job}

/-! ### Whom an interrupt does not concern -/

/-- A job of which the wait, if it has begun, began under a root that is still in place. -/
structure Job.Calm (t t' : Tokens) (job : Job) : Prop where
  waits : ∀ wait, job.stage = .waiting wait → t.Since t' wait.token
  result : job.stage ≠ .done (.ok none)

/-- A step keeps a job calm if the token of its wait is not cancelled. -/
theorem Job.Calm.proceeded {t t' t'' : Tokens} {cancelled cancelled' : List Token} {w w' : World σ}
    (h : job.Calm t t') (ht' : t'.Clear) (ho : Tokens.Onward cancelled t t')
    (hstep : Tokens.Onward cancelled' t' t'') (hw : w.interrupts = t'.interrupts)
    (hlive : ∀ wait, job.stage = .waiting wait → w.isCancelled wait.token = false)
    (hp : job.Proceeded session connections w job' w') : job'.Calm t t'' where
  waits wait hwait := by
    rcases waits_of_proceeded hp hwait with ⟨handle, -, hbegun⟩ | ⟨wait₀, hstage₀, ht, -⟩
    · obtain ⟨rfl, -⟩ := Prod.mk.inj hbegun
      exact hw ▸ ho.since_operation ht' _ hstep.root
    · exact ht ▸ (h.waits wait₀ hstage₀).onward hstep
  result hdone := by
    rcases interrupted_of_proceeded hp hdone with hdone | ⟨wait, hstage₀, hcut⟩
    · exact h.result hdone
    · exact Bool.false_ne_true ((hlive wait hstage₀).symm.trans hcut)

namespace Floor

variable {f : Floor σ} {k : Nat} {r : Reader}

theorem Sound.mem_handed_of_mem_cancelled (hf : f.Sound) (hd : connections.Discreet)
    {acts : List (Act σ)} {t : Token} (ht : t ∈ f.cancelled session connections acts) :
    t ∈ (f.run session connections acts).handed := by
  induction acts generalizing f with
  | nil => cases ht
  | cons a acts ih =>
    rcases List.mem_append.1 ht with ht | ht
    · exact (hf.onward_run session hd (a :: acts)).handed.subset (Act.mem_of_mem_cancelled ht)
    · exact ih (hf.act session hd a) ht

/-- The token of a reader that was opened meanwhile was issued meanwhile. -/
theorem Sound.since_reader (hf : f.Sound) (hd : connections.Discreet) {acts : List (Act σ)}
    (hk : f.readers.length ≤ k) (hr : (f.run session connections acts).reader? k = some r) :
    f.tokens.Since (f.run session connections acts).tokens r.token := by
  induction acts using List.reverseRecOn generalizing r with
  | nil =>
    replace hr : f.readers[k]?.join = some r := hr
    rw [List.getElem?_eq_none hk] at hr
    cases hr
  | append_singleton acts a ih =>
    have hg := hf.run session hd acts
    have honward := hf.onward_run session hd acts
    have hacted := hg.acted session connections a
    have hstep := (hacted.onward hd hg.clear).2
    rw [run_concat] at hr ⊢
    cases hacted.readerFrom hr with
    | kept r₀ hr₀ ht _ => exact ht ▸ (ih hr₀).onward hstep
    | opened _ ht _ _ => exact ht ▸ honward.since_operation hg.clear _ hstep.root
    | cleared _ _ ht _ _ => exact ht ▸ ⟨honward.issued, fun n hn => by cases hn⟩

/-- As long as the root stays, the token of a reader that is opened is cancelled by somebody who has
it or not at all. -/
theorem Sound.isCancelled_eq_false (hf : f.Sound) (hd : connections.Discreet)
    {acts : List (Act σ)}
    (hroot : (f.run session connections acts).interrupts.root = f.interrupts.root)
    (hk : f.readers.length ≤ k) (hr : (f.run session connections acts).reader? k = some r)
    (hu : r.token ∉ f.cancelled session connections acts) :
    (f.run session connections acts).world.isCancelled r.token = false := by
  have hg := hf.run session hd acts
  refine (hf.since_reader hd hk hr).isCancelled_eq_false hf.clear hg.clear
    (hf.onward_run session hd acts) (congrArg Token.number hroot) fun hmem => ?_
  -- tokens that were handed out are known by their numbers
  obtain ⟨v, hv, he⟩ := List.mem_map.1 hmem
  have hsame : v = r.token := List.inj_on_of_nodup_map hg.clear.unique
    (hf.mem_handed_of_mem_cancelled hd hv) (hg.handed k r hr) he
  exact hu (hsame ▸ hv)

/-- As long as the root stays, no wait that begins is interrupted. -/
theorem Sound.calm (hf : f.Sound) (hd : connections.Discreet)
    (hunbegun : ∀ job, f.jobs[k]? = some job → job.stage.hasBegun = false)
    {acts : List (Act σ)}
    (hroot : (f.run session connections acts).interrupts.root.number = f.interrupts.root.number)
    (hj : (f.run session connections acts).jobs[k]? = some job) :
    job.Calm f.tokens (f.run session connections acts).tokens := by
  induction acts using List.reverseRecOn generalizing job with
  | nil =>
    have hstage := hunbegun job hj
    exact
      { waits := fun wait hwait => by rw [hwait] at hstage; cases hstage
        result := fun hdone => by rw [hdone] at hstage; cases hstage }
  | append_singleton acts a ih =>
    have hg := hf.run session hd acts
    have honward := hf.onward_run session hd acts
    have hacted := hg.acted session connections a
    have hstep := (hacted.onward hd hg.clear).2
    rw [run_concat] at hroot hj ⊢
    have hroot' := Nat.le_antisymm (hstep.root.trans (Nat.le_of_eq hroot)) honward.root
    cases hacted.jobFrom hj with
    | kept hj₀ _ =>
      have hcalm := ih hroot' hj₀
      exact
        { waits := fun wait hwait => (hcalm.waits wait hwait).onward hstep
          result := hcalm.result }
    | submitting _ _ he | ready _ _ he =>
      subst he
      exact
        { waits := fun wait hwait => by cases hwait
          result := fun hdone => by cases hdone }
    | proceeded job₀ hj₀ _ hp _ =>
      have hcalm := ih hroot' hj₀
      refine hcalm.proceeded hg.clear honward hstep rfl (fun wait hwait => ?_) hp
      -- nobody has the token of a wait, so nobody has cancelled it
      refine (hcalm.waits wait hwait).isCancelled_eq_false hf.clear hg.clear honward hroot'
        fun hmem => ?_
      obtain ⟨v, hv, he⟩ := List.mem_map.1 hmem
      exact (hg.waits k job₀ wait hj₀ hwait).unhanded
        (he ▸ List.mem_map_of_mem (hf.mem_handed_of_mem_cancelled hd hv))

/-! ### Whom it does -/

/-- A wait goes on under its token until it ends. -/
theorem Sound.token_eq (hf : f.Sound) (hd : connections.Discreet) {wait wait' : Wait}
    (hj : f.jobs[k]? = some job) (hstage : job.stage = .waiting wait) {acts : List (Act σ)}
    (hj' : (f.run session connections acts).jobs[k]? = some job')
    (hstage' : job'.stage = .waiting wait') : wait'.token = wait.token := by
  have hsame (wait' : Wait) (hwait' : job.stage = .waiting wait') :
      wait'.token = wait.token := by
    rw [hstage] at hwait'
    cases hwait'
    rfl
  obtain ⟨job₁, hj₁, hbegun, htoken⟩ := hf.job_run hd
    (P := fun _ job _ => job.stage.hasBegun = true ∧
      ∀ wait', job.stage = .waiting wait' → wait'.token = wait.token)
    (fun _ _ h => h)
    (fun _ _ hp h => by
      refine ⟨hasBegun_of_proceeded h.1 hp, fun wait' hwait' => ?_⟩
      rcases waits_of_proceeded hp hwait' with ⟨handle, hready, -⟩ | ⟨wait₀, hstage₀, ht, -⟩
      · have hbegun := h.1
        rw [hready] at hbegun
        cases hbegun
      · exact ht.trans (h.2 wait₀ hstage₀))
    (n := 0) hj ⟨by rw [hstage]; rfl, hsame⟩ acts
  cases hj₁.symm.trans hj'
  exact htoken wait' hstage'

/-- A wait under a cancelled token makes at most one more check and ends. -/
theorem Sound.woundUp (hf : f.Sound) (hd : connections.Discreet) {wait : Wait}
    (hj : f.jobs[k]? = some job) (hstage : job.stage = .waiting wait)
    (hw : f.world.isCancelled wait.token = true) (acts : List (Act σ)) :
    ∃ job', (f.run session connections acts).jobs[k]? = some job' ∧
      job.WoundUp session wait (acts.countP (Act.isProceed k)) job' := by
  have hcut {g g' : Floor σ} {a : Act σ} (hg : g.Sound) (ha : Acted session connections g a g')
      (hw : g.world.isCancelled wait.token = true) : g'.world.isCancelled wait.token = true :=
    (ha.onward hd hg.clear).2.isCancelled hw
  obtain ⟨job', hj', hwinding, -⟩ := hf.job_run hd
    (P := fun n job' g => job.Winding session wait n job' ∧ g.world.isCancelled wait.token = true)
    (fun hg ha h => ⟨h.1, hcut hg ha h.2⟩)
    (fun hg ha hp h => ⟨h.1.proceeded hstage h.2 hp, hcut hg ha h.2⟩)
    hj ⟨.untouched, hw⟩ acts
  rw [Nat.zero_add] at hwinding
  exact ⟨job', hj', hwinding.woundUp hstage⟩

/-- The accounts of all jobs are in order. -/
theorem Sound.accounted (hf : f.Sound) (hd : connections.Discreet)
    (h : ∀ (k : Nat) job, f.jobs[k]? = some job → job.Accounted) (acts : List (Act σ)) :
    ∀ (k : Nat) job, (f.run session connections acts).jobs[k]? = some job → job.Accounted := by
  induction acts generalizing f with
  | nil => exact h
  | cons a acts ih =>
    refine ih (hf.act session hd a) fun k job hj => ?_
    cases (hf.acted session connections a).jobFrom hj with
    | kept hj₀ _ => exact h k job hj₀
    | submitting _ _ he | ready _ _ he => exact he ▸ .fresh _ _ rfl rfl
    | proceeded job₀ hj₀ _ hp _ => exact (h k job₀ hj₀).proceeded hp

/-- What an interrupt does, and to whom it does nothing, from one moment on. -/
structure Contained (session : Session) (connections : Connections σ) (f : Floor σ) : Prop where
  /-- As long as the root stays, no wait that begins is interrupted. -/
  waits : ∀ (k : Nat) acts, (∀ job : Job, f.jobs[k]? = some job → job.stage.hasBegun = false) →
    (f.run session connections acts).interrupts.root = f.interrupts.root →
    ∀ job : Job, (f.run session connections acts).jobs[k]? = some job → job.stage ≠ .done (.ok none)
  /-- As long as the root stays, the token of a reader that is opened is not cancelled, unless
  somebody who was given it cancels it. -/
  readers : ∀ k acts, f.readers.length ≤ k →
    (f.run session connections acts).interrupts.root = f.interrupts.root →
    ∀ r, (f.run session connections acts).reader? k = some r →
      r.token ∉ f.cancelled session connections acts →
      (f.run session connections acts).world.isCancelled r.token = false
  /-- A wait that had begun when another root was put in place, and goes on when the call that did
  so has returned, winds up. -/
  caught : ∀ (k : Nat) (job : Job) wait acts, f.jobs[k]? = some job → job.stage = .waiting wait →
    (f.run session connections acts).interrupts.root ≠ f.interrupts.root →
    (∀ t ∈ (f.run session connections acts).retired, t.number ∉ wait.token.above) →
    ∀ (job' : Job) wait', (f.run session connections acts).jobs[k]? = some job' →
      job'.stage = .waiting wait' →
      ∀ later, ∃ job'' : Job,
        ((f.run session connections acts).run session connections later).jobs[k]? = some job'' ∧
          job'.WoundUp session wait' (later.countP (Act.isProceed k)) job''
  /-- Who is interrupted has stopped the query once, and nobody else has; a query is submitted
  once. -/
  accounts : ∀ (k : Nat) job, f.jobs[k]? = some job → job.Accounted

/-- Whatever was done in a session, an interrupt concerns what had begun and nothing else, and what
it interrupts stops its query and ends. -/
theorem interrupt_contained (session : Session) (hd : connections.Discreet) (s : σ)
    (acts : List (Act σ)) :
    Contained session connections ((start s).run session connections acts) := by
  have hf := (sound_start s).run session hd acts
  generalize hacts : (start s).run session connections acts = f at hf
  exact
    { waits := fun k later hunbegun hroot job hj =>
        (hf.calm hd hunbegun (congrArg Token.number hroot) hj).result
      readers := fun k later hk hroot r hr hu => hf.isCancelled_eq_false hd hroot hk hr hu
      caught := fun k job wait later hj hstage hroot hretired job' wait' hj' hstage' => by
        have hg := hf.run session hd later
        have ht := hf.token_eq hd hj hstage hj' hstage'
        have hcut := (hf.waits k job wait hj hstage).below.isCancelled hf.clear
          (hf.onward_run session hd later) (hf.clear.root_ne hg.clear hroot) hretired
        exact hg.woundUp hd hj' hstage' (ht ▸ hcut)
      accounts := hacts ▸ (sound_start s).accounted hd (fun k job hj => by cases hj) acts }

/-- A desk on which a query goes on running, and cannot be stopped. -/
def busyDesk : Desk :=
  { reports := [{ answer := .ok (.running, none, none) }]
    stopFailure := some (.io "Connection reset") }

/-- A query is submitted, and a check finds it running; then a call of `interrupt` begins. -/
def interruptingActs : List (Act Desk) :=
  [.execute { query := "SELECT 1" }, .proceed 0, .proceed 0, .proceed 0, .replace]

/-- Before it returns, another wait begins. Both waits go on. -/
def laterActs : List (Act Desk) :=
  [.wait "query-1", .proceed 1, .strike 0, .proceed 0, .proceed 1, .proceed 1]

/-- What is there when the call has begun. -/
def interruptingFloor : Floor Desk := (start busyDesk).run {} Desk.connections interruptingActs

/-- What is there in the end. -/
def busyFloor : Floor Desk := interruptingFloor.run {} Desk.connections laterActs

/-- The first wait is interrupted and has stopped its query, the second is not. -/
theorem interrupt_contained_busy :
    ∃ job other, busyFloor.jobs = [job, other] ∧ job.stage.isInterrupted = true ∧
      job.errands.countP Errand.isStop = 1 ∧ job.errands.countP Errand.isSubmission = 1 ∧
      other.stage ≠ .done (.ok none) := by
  have hjobs : busyFloor.jobs.map (fun job => (job.stage.isInterrupted, job.submits)) =
      [(true, true), (false, false)] := by cbv
  obtain ⟨job, l, hl, hjob, hrest⟩ := List.map_eq_cons_iff.1 hjobs
  obtain ⟨other, l, rfl, -, hnil⟩ := List.map_eq_cons_iff.1 hrest
  obtain rfl := List.map_eq_nil_iff.1 hnil
  obtain ⟨hinterrupted, hsubmits⟩ := Prod.mk.inj hjob
  have hd := Desk.discreet_connections
  have hall : (start busyDesk).run {} Desk.connections (interruptingActs ++ laterActs) =
      busyFloor := List.foldl_append
  have haccount : job.Accounted :=
    (interrupt_contained {} hd busyDesk (interruptingActs ++ laterActs)).accounts 0 job
      (by rw [hall, hl]; rfl)
  have hbegun : job.stage.isSubmitting = false := by
    cases hs : job.stage with
    | submitting => rw [hs] at hinterrupted; cases hinterrupted
    | _ => rfl
  have hunbegun (job : Job) (hj : interruptingFloor.jobs[1]? = some job) :
      job.stage.hasBegun = false := by
    rw [List.getElem?_eq_none (by cbv)] at hj
    cases hj
  refine ⟨job, other, hl, hinterrupted, ?_, ?_, ?_⟩
  · rw [haccount.stops, hinterrupted, if_pos rfl]
  · rw [haccount.submissions, hsubmits, hbegun]
    rfl
  · have hother : busyFloor.jobs[1]? = some other := by rw [hl]; rfl
    exact (interrupt_contained {} hd busyDesk interruptingActs).waits 1 laterActs hunbegun (by cbv)
      other hother

end Floor

end QueryResults.Session
