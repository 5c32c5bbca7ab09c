import QueryResults.Proofs.Cursor.Keeps
import QueryResults.Proofs.Session.Tokens
import QueryResults.Service.Desk

/-!
# Acts

Every act on a floor is one of a few things, and all that it does to the tokens is to cancel one
that was handed out, or some of the steps of `Tokens.Step`. This needs that the services do nothing
to the interrupts behind the back of the session but what everybody may do, which is to interrupt
everything. A reader that is there after an act was there before, or was opened by the act; a job
was there before, or has just been taken up.

## Main definitions

* `Connections.Discreet`: services that can only interrupt everything.
* `Floor.tokens`, `Act.cancelled`, `Floor.cancelled`: the tokens, and those that are cancelled.
* `Floor.Acted`: what comes of an act.
* `Floor.ReaderFrom`, `Floor.JobFrom`: where a reader or a job comes from.

## Main results

* `Desk.discreet_connections`: a desk is discreet.
* `Floor.acted`, `Acted.onward`: what comes of an act, and of the tokens.
* `Acted.readerFrom`, `Acted.jobFrom`.
-/

namespace QueryResults

variable {σ : Type}

/-- Services that have the token of nobody. All that they can do to the interrupts is to interrupt
everything, any number of times. -/
def Connections.Discreet (connections : Connections σ) : Prop :=
  ∀ i, connections.Keeps fun w => ∃ n, w.interrupts = Interrupts.interruptAll^[n] i

theorem Interrupts.isCancelled_iterate {i : Interrupts} {t : Token} (h : i.isCancelled t = true)
    (n : Nat) : (interruptAll^[n] i).isCancelled t = true := by
  induction n with
  | zero => exact h
  | succ n ih =>
    rw [Function.iterate_succ_apply', interruptAll_eq, isCancelled_cancel]
    exact .inr ih

/-- Discreet services leave cancelled what is cancelled. -/
theorem Connections.Discreet.keeps_isCancelled {connections : Connections σ}
    (hd : connections.Discreet) (t : Token) :
    connections.Keeps fun w => w.isCancelled t = true := by
  have hkept {w w' : World σ} (hw : w.isCancelled t = true)
      (hw' : ∃ n, w'.interrupts = Interrupts.interruptAll^[n] w.interrupts) :
      w'.isCancelled t = true := by
    obtain ⟨n, hn⟩ := hw'
    rw [World.isCancelled, hn]
    exact Interrupts.isCancelled_iterate hw n
  exact
    { service :=
        { submit := fun s v hv => hkept hv ((hd v.interrupts).service.submit s ⟨0, rfl⟩)
          status := fun h v hv => hkept hv ((hd v.interrupts).service.status h ⟨0, rfl⟩)
          stop := fun h v hv => hkept hv ((hd v.interrupts).service.stop h ⟨0, rfl⟩)
          request := fun r v hv => hkept hv ((hd v.interrupts).service.request r ⟨0, rfl⟩)
          receive := fun t v hv => hkept hv ((hd v.interrupts).service.receive t ⟨0, rfl⟩)
          abandon := fun t v hv => hkept hv ((hd v.interrupts).service.abandon t ⟨0, rfl⟩) }
      store :=
        { get := fun r v hv => hkept hv ((hd v.interrupts).store.get r v ⟨0, rfl⟩)
          lapse := fun v hv => hkept hv ((hd v.interrupts).store.lapse v ⟨0, rfl⟩) } }

/-- A desk as the only service. A question that interrupts somebody interrupts everything. -/
def Desk.connections : Connections Desk :=
  { service := Desk.service id (fun d _ => d) Interrupts.interruptAll }

theorem Desk.discreet_connections : Desk.connections.Discreet := by
  intro i
  have hrun (interrupts : Bool) {j : Interrupts} (h : ∃ n, j = Interrupts.interruptAll^[n] i) :
      ∃ n, (if interrupts then j.interruptAll else j) = Interrupts.interruptAll^[n] i := by
    obtain ⟨n, rfl⟩ := h
    cases interrupts with
    | false => exact ⟨n, rfl⟩
    | true =>
      refine ⟨n + 1, ?_⟩
      rw [Function.iterate_succ_apply', if_pos rfl]
  exact
    { service :=
        { submit := fun _ _ hv => hrun false hv
          status := fun _ _ hv => hrun _ hv
          stop := fun _ _ hv => hrun false hv
          request := fun _ _ hv => hrun _ hv
          receive := fun _ _ hv => hrun false hv
          abandon := fun _ _ hv => hrun false hv }
      store := { get := fun _ _ hv => hv, lapse := fun _ hv => hv } }

namespace Session

theorem Tokens.reach_iterate (t : Tokens) (n : Nat) :
    t.Reach { t with interrupts := Interrupts.interruptAll^[n] t.interrupts } := by
  induction n with
  | zero => exact .refl
  | succ n ih =>
    rw [Function.iterate_succ_apply']
    exact ih.trans (reach_interruptAll _)

/-- The tokens of readers that an act cancels. -/
def Act.cancelled (handed : List Token) : Act σ → List Token
  | .cancel n => handed[n]?.toList
  | _ => []

theorem Act.mem_of_mem_cancelled {handed : List Token} {a : Act σ} {t : Token}
    (h : t ∈ a.cancelled handed) : t ∈ handed := by
  cases a with
  | cancel n =>
    rw [Act.cancelled, Option.mem_toList] at h
    exact List.mem_of_getElem? h
  | _ => cases h

/-- Whether a job goes on. -/
def Act.isProceed (k : Nat) : Act σ → Bool
  | .proceed k' => k' == k
  | _ => false

namespace Floor

/-- The tokens of a floor. -/
def tokens (f : Floor σ) : Tokens :=
  { interrupts := f.interrupts, retired := f.retired, handed := f.handed }

/-- The tokens of readers that are cancelled in the course of acts. -/
def cancelled (session : Session) (connections : Connections σ) :
    Floor σ → List (Act σ) → List Token
  | _, [] => []
  | f, a :: acts =>
    a.cancelled f.handed ++ cancelled session connections (f.act session connections a) acts

variable {session : Session} {connections : Connections σ} {f f' : Floor σ} {a : Act σ} {k : Nat}

/-! ### What comes of an act -/

/-- What comes of an act. -/
inductive Acted (session : Session) (connections : Connections σ) (f : Floor σ) :
    Act σ → Floor σ → Prop
  /-- There is no such reader, job or token, the call does not come back, or nothing changes. -/
  | idle (a : Act σ) (hcancelled : a.cancelled f.handed = [])
      (hjob : ∀ k, a = .proceed k → f.jobs[k]? = none) : Acted session connections f a f
  | opened (status : Execution.Status) (cursor : Cursor)
      (ht : cursor.interrupt = f.interrupts.operation.1) :
      Acted session connections f (.openResult status)
        (f.withReader cursor { f.world with interrupts := f.interrupts.operation.2 })
  | refused (status : Execution.Status) :
      Acted session connections f (.openResult status)
        { f with world := { f.world with interrupts := f.interrupts.operation.2 } }
  | called (k : Nat) (x : Cursor.Call) (r : Reader) {answer : Cursor.Answer} {cursor : Cursor}
      {world : World σ} (hr : f.reader? k = some r) (hx : x ≠ .clearInterrupt)
      (hcall : r.cursor.call connections f.world x = some (answer, cursor, world)) :
      Acted session connections f (.call k x)
        { f with world, readers := f.readers.set k (some { r with cursor }) }
  | cleared (k : Nat) (r : Reader) (hr : f.reader? k = some r) :
      Acted session connections f (.call k .clearInterrupt)
        { f with
          world := { f.world with interrupts := f.interrupts.fresh.2 }
          readers := f.readers.set k
            (some { cursor := r.cursor.withInterrupt f.interrupts.fresh.1, renewed := true })
          handed := f.handed ++ [f.interrupts.fresh.1] }
  | closed (k : Nat) (r : Reader) (hr : f.reader? k = some r) :
      Acted session connections f (.close k)
        { f with world := r.cursor.close connections f.world, readers := f.readers.set k none }
  | cancelled (n : Nat) (t : Token) (ht : f.handed[n]? = some t) :
      Acted session connections f (.cancel n)
        { f with world := f.world.onInterrupts (·.cancel t) }
  | replaced : Acted session connections f .replace f.replaced
  | struck (n : Nat) (t : Token) (ht : f.retired[n]? = some t) :
      Acted session connections f (.strike n)
        { f with
          world := f.world.onInterrupts (·.cancel t)
          retired := f.retired.eraseIdx n }
  | submitting (s : Submission) :
      Acted session connections f (.execute s)
        { f with jobs := f.jobs ++ [{ stage := .submitting s, submits := true }] }
  | ready (handle : Handle) :
      Acted session connections f (.wait handle)
        { f with jobs := f.jobs ++ [{ stage := .ready handle, submits := false }] }
  | proceeded (k : Nat) (job : Job) {job' : Job} {world : World σ} (hk : f.jobs[k]? = some job)
      (hp : job.Proceeded session connections f.world job' world) :
      Acted session connections f (.proceed k) { f with world, jobs := f.jobs.set k job' }
  | meanwhile (g : σ → σ) :
      Acted session connections f (.meanwhile g)
        { f with world := { f.world with outside := g f.world.outside } }

theorem set_of_reader? {r : Reader} (hr : f.reader? k = some r) :
    f.readers.set k (some r) = f.readers := by
  obtain ⟨o, ho, rfl⟩ : ∃ o, f.readers[k]? = some o ∧ o = some r := by
    rw [reader?, Option.join_eq_some_iff] at hr
    exact ⟨_, hr, rfl⟩
  obtain ⟨hk, he⟩ := List.getElem?_eq_some_iff.1 ho
  rw [← he, List.set_getElem_self]

theorem acted (hissued : ∀ k r, f.reader? k = some r → r.token.number < f.interrupts.issued)
    (session : Session) (connections : Connections σ) (a : Act σ) :
    Acted session connections f a (f.act session connections a) := by
  cases a with
  | openResult status =>
    cases hc : session.cursor connections status f.interrupts.operation.1 with
    | error e =>
      have hopen : session.openResult connections status f.world =
          (.error e, { f.world with interrupts := f.interrupts.operation.2 }) := by
        rw [← hc]
        rfl
      simp only [act, hopen]
      exact .refused status
    | ok cursor =>
      have hopen : session.openResult connections status f.world =
          (.ok cursor, { f.world with interrupts := f.interrupts.operation.2 }) := by
        rw [← hc]
        rfl
      simp only [act, hopen]
      exact .opened status cursor (Cursor.isUnused_of_ofStatus hc).2
  | call k x =>
    cases hr : f.reader? k with
    | none =>
      simp only [act, hr]
      exact .idle _ rfl fun k h => by cases h
    | some r =>
      cases hcall : r.cursor.call connections f.world x with
      | none =>
        simp only [act, hr, hcall]
        exact .idle _ rfl fun k h => by cases h
      | some y =>
        obtain ⟨answer, cursor, world⟩ := y
        simp only [act, hr, hcall]
        by_cases hx : x = .clearInterrupt
        · subst hx
          simp only [Cursor.call, Cursor.clearInterrupt_eq] at hcall
          cases hcall
          by_cases hw : f.interrupts.isCancelled r.cursor.interrupt
          · have hrenew : f.world.interrupts.renew r.cursor.interrupt = f.interrupts.fresh :=
              if_pos hw
            -- a token that was just issued is another than the reader has
            have hne : f.interrupts.fresh.1 ≠ r.token := fun he =>
              Nat.lt_irrefl _ (he ▸ hissued k r hr)
            simp only [keep, hrenew, Cursor.interrupt_withInterrupt, if_neg hne]
            exact .cleared k r hr
          · have hrenew : f.world.interrupts.renew r.cursor.interrupt =
                (r.cursor.interrupt, f.interrupts) := if_neg hw
            have hsame : r.cursor.interrupt = r.token := rfl
            simp only [keep, hrenew, Cursor.withInterrupt_interrupt, if_pos hsame,
              set_of_reader? hr]
            exact .idle _ rfl fun k h => by cases h
        · have ht : cursor.interrupt = r.token := Cursor.interrupt_call hx hcall
          rw [keep, if_pos ht]
          exact .called k x r hr hx hcall
  | close k =>
    cases hr : f.reader? k with
    | none =>
      simp only [act, hr]
      exact .idle _ rfl fun k h => by cases h
    | some r =>
      simp only [act, hr]
      exact .closed k r hr
  | cancel n =>
    cases ht : f.handed[n]? with
    | none =>
      simp only [act, ht]
      exact .idle _ (by rw [Act.cancelled, ht]; rfl) fun k h => by cases h
    | some t =>
      simp only [act, ht]
      exact .cancelled n t ht
  | replace => exact .replaced
  | strike n =>
    cases ht : f.retired[n]? with
    | none =>
      simp only [act, struck, ht]
      exact .idle _ rfl fun k h => by cases h
    | some t =>
      simp only [act, struck, ht]
      exact .struck n t ht
  | execute s => exact .submitting s
  | wait handle => exact .ready handle
  | proceed k =>
    cases hk : f.jobs[k]? with
    | none =>
      simp only [act, hk]
      exact .idle _ rfl fun k' h => by cases h; exact hk
    | some job =>
      simp only [act, hk]
      exact .proceeded k job hk (job.proceeded session connections f.world)
  | meanwhile g => exact .meanwhile g

/-! ### The tokens -/

/-- What a job does to the interrupts. -/
theorem interrupts_of_proceeded (hd : connections.Discreet) {job job' : Job} {w w' : World σ}
    (h : job.Proceeded session connections w job' w') :
    (∃ n, w'.interrupts = Interrupts.interruptAll^[n] w.interrupts) ∨
      w'.interrupts = w.interrupts.operation.2 := by
  have hk := (hd w.interrupts).service
  have hw : ∃ n, w.interrupts = Interrupts.interruptAll^[n] w.interrupts := ⟨0, rfl⟩
  cases h with
  | refused s e hstage hsubmit =>
    have hsubmitted := hk.submit (s.withDefaults session.defaults) hw
    exact .inl (by rwa [show connections.service.submit _ w = _ from hsubmit] at hsubmitted)
  | submitted s handle hstage hsubmit =>
    have hsubmitted := hk.submit (s.withDefaults session.defaults) hw
    exact .inl (by rwa [show connections.service.submit _ w = _ from hsubmit] at hsubmitted)
  | begun handle hstage => exact .inr rfl
  | woken wait hstage hpaused hcut => exact .inl hw
  | stopped wait hstage hpaused hcut => exact .inl (hk.stop wait.handle hw)
  | checked wait answer span hstage hpaused hstatus hjudge =>
    have hasked := hk.status wait.handle hw
    exact .inl (by rwa [hstatus] at hasked)
  | ended wait answer result hstage hpaused hstatus hjudge =>
    have hasked := hk.status wait.handle hw
    exact .inl (by rwa [hstatus] at hasked)
  | idle result hstage => exact .inl hw

/-- An act cancels a token that was handed out, or does some of the steps of tokens. -/
theorem Acted.reach (hd : connections.Discreet) (h : Acted session connections f a f') :
    (∃ t ∈ f.handed, a.cancelled f.handed = [t] ∧ f'.tokens = f.tokens.cancel t) ∨
      a.cancelled f.handed = [] ∧ f.tokens.Reach f'.tokens := by
  have hcalls {world : World σ} (hw : ∃ n, world.interrupts = Interrupts.interruptAll^[n]
      f.interrupts) : f.tokens.Reach { f.tokens with interrupts := world.interrupts } := by
    obtain ⟨n, hn⟩ := hw
    exact hn ▸ f.tokens.reach_iterate n
  have hissue : f.tokens.Reach { f.tokens with interrupts := f.interrupts.operation.2 } :=
    .single (.issue _)
  cases h with
  | idle _ hcancelled hjob => exact .inr ⟨hcancelled, .refl⟩
  | opened status cursor ht =>
    exact .inr ⟨rfl, .single (.hand f.tokens cursor.interrupt (by rw [ht]; rfl))⟩
  | refused status => exact .inr ⟨rfl, hissue⟩
  | called k x r hr hx hcall =>
    exact .inr ⟨rfl, hcalls (Cursor.keeps_call (hd f.interrupts) hx ⟨0, rfl⟩ hcall)⟩
  | cleared k r hr => exact .inr ⟨rfl, .single (.hand f.tokens _ rfl)⟩
  | closed k r hr =>
    exact .inr ⟨rfl, hcalls (Cursor.keeps_close (hd f.interrupts) r.cursor ⟨0, rfl⟩)⟩
  | cancelled n t ht =>
    exact .inl ⟨t, List.mem_of_getElem? ht, by rw [Act.cancelled, ht]; rfl, rfl⟩
  | replaced => exact .inr ⟨rfl, .single (.replace _)⟩
  | struck n t ht => exact .inr ⟨rfl, .single (.strike f.tokens n t ht)⟩
  | submitting s => exact .inr ⟨rfl, .refl⟩
  | ready handle => exact .inr ⟨rfl, .refl⟩
  | proceeded k job hk hp =>
    refine .inr ⟨rfl, ?_⟩
    rcases interrupts_of_proceeded hd hp with hw | hw
    · exact hcalls hw
    · have hreach := hissue
      rwa [← show _ = f.interrupts.operation.2 from hw] at hreach
  | meanwhile g => exact .inr ⟨rfl, .refl⟩

theorem Acted.onward (hd : connections.Discreet) (h : Acted session connections f a f')
    (hf : f.tokens.Clear) :
    f'.tokens.Clear ∧ Tokens.Onward (a.cancelled f.handed) f.tokens f'.tokens := by
  rcases h.reach hd with ⟨t, ht, ha, he⟩ | ⟨ha, hreach⟩
  · rw [ha, he]
    exact ⟨hf.cancel ht, .cancel _ _⟩
  · rw [ha]
    exact ⟨hf.reach hreach, hf.onward hreach⟩

/-! ### Where readers and jobs come from -/

/-- Where a reader comes from. -/
inductive ReaderFrom (f f' : Floor σ) (k : Nat) (r' : Reader) : Prop
  | kept (r : Reader) (hr : f.reader? k = some r) (ht : r'.token = r.token)
      (hn : r'.renewed = r.renewed)
  | opened (hk : f.readers.length ≤ k) (ht : r'.token = f.interrupts.operation.1)
      (hn : r'.renewed = false)
      (hf : f'.tokens =
        { f.tokens with
          interrupts := f.interrupts.operation.2
          handed := f.handed ++ [r'.token] })
  | cleared (r : Reader) (hr : f.reader? k = some r) (ht : r'.token = f.interrupts.fresh.1)
      (hn : r'.renewed = true)
      (hf : f'.tokens =
        { f.tokens with
          interrupts := f.interrupts.fresh.2
          handed := f.handed ++ [r'.token] })

theorem reader?_withReader {cursor : Cursor} {world : World σ} {r : Reader}
    (hr : (f.withReader cursor world).reader? k = some r) :
    f.reader? k = some r ∨ f.readers.length ≤ k ∧ r = { cursor } := by
  unfold reader? withReader at *
  rw [List.getElem?_append] at hr
  split at hr
  · exact .inl hr
  · rename_i hk
    rw [List.getElem?_singleton] at hr
    split at hr
    · exact .inr ⟨Nat.le_of_not_lt hk, (Option.some.inj hr).symm⟩
    · cases hr

theorem join_set {readers : List (Option Reader)} {n : Nat} {o : Option Reader} {r : Reader}
    (hr : (readers.set n o)[k]?.join = some r) :
    readers[k]?.join = some r ∨ n = k ∧ o = some r := by
  rw [List.getElem?_set] at hr
  split at hr
  · rename_i hn
    split at hr
    · exact .inr ⟨hn, hr⟩
    · cases hr
  · exact .inl hr

theorem Acted.readerFrom (h : Acted session connections f a f') {r : Reader}
    (hr : f'.reader? k = some r) : ReaderFrom f f' k r := by
  cases h with
  | opened status cursor ht =>
    rcases reader?_withReader hr with hr | ⟨hk, rfl⟩
    · exact .kept r hr rfl rfl
    · exact .opened hk ht rfl rfl
  | called n x r₀ hr₀ hx hcall =>
    rcases join_set hr with hr | ⟨rfl, he⟩
    · exact .kept r hr rfl rfl
    · cases he
      exact .kept r₀ hr₀ (Cursor.interrupt_call hx hcall) rfl
  | cleared n r₀ hr₀ =>
    rcases join_set hr with hr | ⟨rfl, he⟩
    · exact .kept r hr rfl rfl
    · cases he
      have ht : (r₀.cursor.withInterrupt f.interrupts.fresh.1).interrupt = f.interrupts.fresh.1 :=
        Cursor.interrupt_withInterrupt _ _
      exact .cleared r₀ hr₀ ht rfl (by rw [Reader.token, ht]; rfl)
  | closed n r₀ hr₀ =>
    rcases join_set hr with hr | ⟨-, he⟩
    · exact .kept r hr rfl rfl
    · cases he
  | idle | refused | cancelled | replaced | struck | submitting | ready | proceeded | meanwhile =>
    exact .kept r hr rfl rfl

/-- Where a job comes from. -/
inductive JobFrom (session : Session) (connections : Connections σ) (f : Floor σ) (a : Act σ)
    (f' : Floor σ) (k : Nat) (job' : Job) : Prop
  | kept (hj : f.jobs[k]? = some job') (ha : a.isProceed k = false)
  | submitting (s : Submission) (hj : f.jobs[k]? = none)
      (he : job' = { stage := .submitting s, submits := true })
  | ready (handle : Handle) (hj : f.jobs[k]? = none)
      (he : job' = { stage := .ready handle, submits := false })
  | proceeded (job : Job) (hj : f.jobs[k]? = some job) (ha : a.isProceed k = true)
      (hp : job.Proceeded session connections f.world job' f'.world)
      (hf : f'.tokens = { f.tokens with interrupts := f'.interrupts })

theorem Acted.jobFrom (h : Acted session connections f a f') {job : Job}
    (hj : f'.jobs[k]? = some job) : JobFrom session connections f a f' k job := by
  have hconcat {job₀ : Job} (hj : (f.jobs ++ [job₀])[k]? = some job) :
      f.jobs[k]? = some job ∨ f.jobs[k]? = none ∧ job = job₀ := by
    rw [List.getElem?_append] at hj
    split at hj
    · exact .inl hj
    · rename_i hk
      rw [List.getElem?_singleton] at hj
      split at hj
      · exact .inr ⟨List.getElem?_eq_none (Nat.le_of_not_lt hk), (Option.some.inj hj).symm⟩
      · cases hj
  cases h with
  | submitting s =>
    rcases hconcat hj with hj | ⟨hk, he⟩
    · exact .kept hj rfl
    · exact .submitting s hk he
  | ready handle =>
    rcases hconcat hj with hj | ⟨hk, he⟩
    · exact .kept hj rfl
    · exact .ready handle hk he
  | proceeded n job₀ hn hp =>
    replace hj : (f.jobs.set n _)[k]? = some job := hj
    rw [List.getElem?_set] at hj
    split at hj
    · rename_i he
      subst he
      split at hj
      · cases hj
        exact .proceeded job₀ hn (beq_self_eq_true n) hp rfl
      · cases hj
    · rename_i hne
      exact .kept hj (by rwa [Act.isProceed, beq_eq_false_iff_ne])
  | idle _ hcancelled hjob =>
    refine .kept hj ?_
    cases ha : a.isProceed k with
    | false => rfl
    | true =>
      cases a with
      | proceed n =>
        have hn : n = k := by rwa [Act.isProceed, beq_iff_eq] at ha
        rw [hjob k (hn ▸ rfl)] at hj
        cases hj
      | _ => cases ha
  | opened | refused | called | cleared | closed | cancelled | replaced | struck | meanwhile =>
    exact .kept hj rfl

/-- A job stays where it is. -/
theorem Acted.exists_job (h : Acted session connections f a f') {job : Job}
    (hj : f.jobs[k]? = some job) : ∃ job', f'.jobs[k]? = some job' := by
  have hk : k < f.jobs.length := (List.getElem?_eq_some_iff.1 hj).1
  have hlength : f.jobs.length ≤ f'.jobs.length := by
    cases h with
    | submitting | ready => rw [List.length_append]; exact Nat.le_add_right _ _
    | proceeded => rw [List.length_set]
    | _ => exact Nat.le_refl _
  exact ⟨_, List.getElem?_eq_getElem (Nat.lt_of_lt_of_le hk hlength)⟩

end Floor

end Session

end QueryResults
