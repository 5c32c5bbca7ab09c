import QueryResults.Proofs.Fetcher.Reports
import QueryResults.Proofs.Store.Scripted

/-!
# What a failed download reports

A download that ends with a failure accounts for all its attempts. There are as many requests as
there are failures, counting the one it ends with. If no response was ever accepted, the only
request is the one that was refused. Otherwise as many failures are carried as there were retries,
or fewer only if the object has changed, however far the download got in between.

A transfer keeps this account at every step: in each phase it is known which attempts have failed,
and a failure is added to the report exactly where a retry is used up.

## Main definitions

* `Transfer.Reckoned`: the account that a transfer keeps.

## Main results

* `Reckoned.transition`, `Reckoned.run`: every step and every course keeps the account.
* `Fetcher.failure_accounts`: what the failure of a download reports.
-/

namespace QueryResults.Download

open Store

variable {σ : Type} {store : Store σ}

namespace Transfer

variable {offset : UInt64} {events more : List Event} {x : Exchange} {e : Failure}
  {t t' : Transfer} {known : Option String}

/-! ### The account of a transfer -/

/-- What is accounted for in a phase. Until a response was accepted there is one request at most. -/
def Phase.Reckoned (offset : UInt64) (events : List Event) (retries : Nat) (p : Progress) :
    Phase → Prop
  | .opening | .pausing _ =>
    Reported offset events p.failures ∧ (p.responded = false → exchanges events = [])
  | .awaiting _ =>
    (∃ x, Attempts offset events p.failures x) ∧
      (p.responded = false → (exchanges events).length = 1)
  | .reading _ | .offering _ _ => ∃ x, Attempts offset events p.failures x
  | .closing (.failed e) => Accounts offset retries events e
  | .closing _ | .ended | .lost => True

/-- The account that a transfer keeps of what has happened since it started at `offset`. -/
structure Reckoned (offset : UInt64) (events : List Event) (t : Transfer) : Prop where
  delivered : t.progress.delivered = offset + .ofNat (handedBytes events).length
  spent : t.progress.failures.length + t.progress.retriesLeft = t.plan.maxRetries
  responded : t.progress.responded = true → ∃ x ∈ exchanges events, x.accepted ≠ none
  phase : t.phase.Reckoned offset events t.plan.maxRetries t.progress
  handed : ∀ e, .handed (.failed e) ∈ events →
    t.phase = .ended ∧ Accounts offset t.plan.maxRetries events e

namespace Reckoned

theorem start (plan : Plan) (offset : UInt64) (known : Option String) :
    Reckoned offset [] (start plan offset known) where
  delivered := by simp [Transfer.start, handedBytes]
  spent := Nat.zero_add _
  responded := nofun
  phase := ⟨.nil rfl, fun _ => rfl⟩
  handed := nofun

/-- What happens besides requests and without signals changes nothing in the account. -/
theorem append (h : Reckoned offset events t) (hnone : exchanges more = [])
    (hhanded : handedSignals more = []) : Reckoned offset (events ++ more) t := by
  have hno (y : Signal) : .handed y ∉ more := fun hy => by
    have : y ∈ handedSignals more := List.mem_filterMap.2 ⟨_, hy, rfl⟩
    simp [hhanded] at this
  have hbytes : handedBytes more = [] := by
    refine List.flatMap_eq_nil_iff.2 fun event hevent => ?_
    cases event with
    | handed y => exact absurd hevent (hno y)
    | _ => rfl
  have hown : exchanges (events ++ more) = exchanges events := by simp [hnone]
  refine ⟨by simp [h.delivered, hbytes], h.spent, hown ▸ h.responded, ?_, fun e he => ?_⟩
  · have hphase := h.phase
    cases hp : t.phase with
    | opening | pausing =>
      rw [hp] at hphase
      exact ⟨hphase.1.append hnone hbytes, hown ▸ hphase.2⟩
    | awaiting answer =>
      rw [hp] at hphase
      exact ⟨hphase.1.imp fun _ hx => hx.append hnone, hown ▸ hphase.2⟩
    | reading body | offering bytes body =>
      rw [hp] at hphase
      exact hphase.imp fun _ hx => hx.append hnone
    | closing last =>
      rw [hp] at hphase
      cases last with
      | failed e => exact Accounts.append hphase hnone hbytes
      | _ => trivial
    | ended | lost => trivial
  · have he := (List.mem_append.1 he).resolve_right (hno _)
    exact ⟨(h.handed e he).1, (h.handed e he).2.append hnone hbytes⟩

/-- A task that has not ended goes on in another phase, with nothing to be seen. -/
theorem onward (h : Reckoned offset events t) (hp : t.phase ≠ .ended) (hplan : t'.plan = t.plan)
    (hdelivered : t'.progress.delivered = t.progress.delivered)
    (hspent : t'.progress.failures.length + t'.progress.retriesLeft = t.plan.maxRetries)
    (hresponded : t'.progress.responded = true → ∃ x ∈ exchanges events, x.accepted ≠ none)
    (hphase : t'.phase.Reckoned offset events t.plan.maxRetries t'.progress) :
    Reckoned offset events t' where
  delivered := hdelivered.trans h.delivered
  spent := hplan ▸ hspent
  responded := hresponded
  phase := hplan ▸ hphase
  handed e he := absurd (h.handed e he).1 hp

/-- The consumer has nothing to do with the account. -/
theorem congr (h : Reckoned offset events t) (hplan : t'.plan = t.plan)
    (hprogress : t'.progress = t.progress) (hphase : t'.phase = t.phase) :
    Reckoned offset events t' where
  delivered := hprogress ▸ h.delivered
  spent := hplan ▸ hprogress ▸ h.spent
  responded := hprogress ▸ h.responded
  phase := hplan ▸ hprogress ▸ hphase ▸ h.phase
  handed := hplan ▸ hphase ▸ h.handed

theorem gathered (h : Reckoned offset events t) : Reckoned offset events t.gathered :=
  ⟨h.delivered, h.spent, h.responded, h.phase, h.handed⟩

/-- An attempt has failed after a response: the rest is asked for again, or the task gives up. -/
theorem retry (h : Reckoned offset events t) (hp : t.phase ≠ .ended)
    (hresponded : t.progress.responded = true) (hx : Attempts offset events t.progress.failures x)
    (he : x.FailsAt t.progress.delivered (endAfter (exchanges events)) e) :
    Reckoned offset events (t.retry e) := by
  have hspent := h.spent
  have hreport : Reported offset events (t.progress.failures ++ [e]) :=
    hx.report (h.delivered ▸ he)
  unfold Transfer.retry
  split
  · rename_i hstop
    refine h.onward hp rfl rfl hspent h.responded ?_
    have hsup : (e.withSuppressed t.progress.failures).suppressed = t.progress.failures := by
      simp [he.suppressed]
    exact
      { reported := by rwa [hsup, Failure.eq_of_withSuppressed he.suppressed]
        refused := fun hnone => by
          obtain ⟨y, hy, hacc⟩ := h.responded hresponded
          exact absurd (hnone y hy) hacc
        few := by
          rw [hsup]
          omega
        exhausted := fun _ hk => by
          have hleft : t.progress.retriesLeft = 0 := hstop.resolve_left hk
          rw [hsup]
          omega }
  · rename_i hgo
    rw [not_or] at hgo
    refine h.onward hp rfl rfl ?_ h.responded ⟨hreport, fun hr => nomatch hresponded.symm.trans hr⟩
    simp only [List.length_append, List.length_singleton]
    omega

/-- A request was not accepted: if no other was before, it is the only one. -/
theorem refused (h : Reckoned offset events t) (hc : t.Coherent) (hp : t.phase ≠ .ended)
    (hx : Attempts offset events t.progress.failures x) (hnone : x.accepted = none)
    (hone : t.progress.responded = false → (exchanges events).length = 1)
    (he : x.FailsAt t.progress.delivered (endAfter (exchanges events)) (t.located e)) :
    Reckoned offset events (t.refused e) := by
  unfold Transfer.refused
  split
  · rename_i hr
    exact h.retry hp hr hx he
  · rename_i hr
    rw [Bool.not_eq_true] at hr
    refine h.onward hp rfl rfl h.spent h.responded ?_
    have hreport := hx.report (h.delivered ▸ he)
    rw [hc.failures hr] at hreport
    exact
      { reported := hreport
        refused := fun _ => rfl
        few := Nat.zero_le _
        exhausted := fun ⟨y, hy, hacc⟩ => by
          obtain ⟨z, hz⟩ := List.length_eq_one_iff.1 (hone hr)
          have hxz := hx.mem
          rw [hz] at hy hxz
          obtain rfl := List.mem_singleton.1 hy
          obtain rfl := List.mem_singleton.1 hxz
          exact absurd hnone hacc }

/-- What a task does when a body has ended. -/
theorem bodyEnded (h : Reckoned offset events t) (hp : t.phase ≠ .ended)
    (hresponded : t.progress.responded = true) (hx : Attempts offset events t.progress.failures x)
    (hknows : t.progress.Knows known (exchanges events)) (hreads : t.Reads (exchanges events) []) :
    Reckoned offset events t.bodyEnded := by
  have complete : Reckoned offset events { t with phase := .closing .complete } :=
    h.onward hp rfl rfl h.spent h.responded trivial
  unfold Transfer.bodyEnded
  split
  · rename_i finish hfinish
    split
    · rename_i hlt
      obtain ⟨done, y, r, taken, hown, -, hr, hbody, -, hl⟩ := hreads
      obtain rfl := hx.eq_of_exchanges hown
      rw [List.append_nil] at hbody
      exact h.retry hp hresponded hx
        (.cutShort hr hbody hl.symm (hknows.endAfter_eq hfinish) (UInt64.lt_iff_toNat_lt.1 hlt))
    · exact complete
  · exact complete

/-- Another request is an attempt that is not accounted for yet. -/
theorem ask (h : Reckoned offset events t) (hp : t.phase = .opening) (answer : Answer) :
    Reckoned offset (events ++ [.asked ⟨t.nextRequest, answer⟩])
      { t with phase := .awaiting answer } := by
  have hphase := h.phase
  rw [hp] at hphase
  exact
    { delivered := by simpa [handedBytes, Event.handedBytes] using h.delivered
      spent := h.spent
      responded := fun hr => by
        obtain ⟨y, hy, hacc⟩ := h.responded hr
        exact ⟨y, by simp [hy], hacc⟩
      phase := ⟨⟨_, events, [], rfl, rfl, hphase.1⟩,
        fun hr => by simp [hphase.2 hr, Event.exchange]⟩
      handed := fun e he => by
        have he : .handed (.failed e) ∈ events := by simpa using he
        cases hp.symm.trans (h.handed e he).1 }

/-- A chunk that is handed over takes the download on, or breaks it down. -/
theorem hand (h : Reckoned offset events t) {bytes : List UInt8} {body : List Item} {next : Phase}
    (hp : t.phase = .offering bytes body) (hnext : next = .reading body ∨ next = .lost) :
    Reckoned offset (events ++ [.handed (.chunk bytes)])
      { t with
        channel := t.channel ++ [.chunk bytes]
        progress := t.progress.afterChunk bytes
        phase := next } := by
  have hphase := h.phase
  rw [hp] at hphase
  obtain ⟨x, hx⟩ := hphase
  exact
    { delivered := by
        simp [Progress.afterChunk, handedBytes, Event.handedBytes, Signal.bytes, h.delivered,
          UInt64.ofNat_add, UInt64.add_assoc]
      spent := h.spent
      responded := fun hr => by simpa [Event.exchange] using h.responded hr
      phase := by
        rcases hnext with rfl | rfl
        · exact ⟨x, hx.append rfl⟩
        · trivial
      handed := fun e he => by
        have he : .handed (.failed e) ∈ events := by simpa using he
        cases hp.symm.trans (h.handed e he).1 }

/-- The failure that is handed over accounts for all attempts. -/
theorem close (h : Reckoned offset events t) (hc : t.Coherent) {last : Signal}
    (hp : t.phase = .closing last) :
    Reckoned offset (events ++ [.handed last])
      { t with channel := t.channel ++ [last], phase := .ended } := by
  have hphase := h.phase
  rw [hp] at hphase
  have hbytes : handedBytes [.handed last] = [] := by
    simp [handedBytes, Event.handedBytes, Signal.bytes_eq_nil (hc.closing last hp)]
  exact
    { delivered := by simp [h.delivered, hbytes]
      spent := h.spent
      responded := fun hr => by simpa [Event.exchange] using h.responded hr
      phase := trivial
      handed := fun e he => by
        refine ⟨rfl, ?_⟩
        rcases List.mem_append.1 he with he | he
        · cases hp.symm.trans (h.handed e he).1
        · cases List.mem_singleton.1 he
          exact Accounts.append hphase rfl hbytes }

end Reckoned

/-- What a step of the task shows: a request with its answer, or a signal that is handed over. -/
def shown (t t' : Transfer) (xs : List Exchange) : List Event :=
  xs.map .asked ++ (t'.channel.drop t.channel.length).map .handed

/-- A step that shows nothing. -/
theorem Reckoned.unseen (hch : t'.channel = t.channel) (h : Reckoned offset events t') :
    Reckoned offset (events ++ t.shown t' []) t' := by
  simpa [shown, hch] using h

/-- The tag that comes back is another one than expected. -/
theorem failsAt_of_reject {r : Response} {finish : Option Nat}
    (ha : t.progress.accept r = .error e) :
    (⟨t.nextRequest, .response r⟩ : Exchange).FailsAt t.progress.delivered finish
      (t.located e) := by
  obtain ⟨expected, actual, hp, hr, hne, rfl⟩ := exists_of_reject ha
  exact .changed rfl hp hr hne

namespace Reckoned

/-- A step of the task keeps the account. -/
theorem transition {s s' : σ} {xs : List Exchange} (h : Reckoned offset events t)
    (hr : t.Recalls known (exchanges events)) (hc : t.Coherent)
    (ht : Transition store.logged t (s, []) t' (s', xs)) :
    Reckoned offset (events ++ t.shown t' xs) t' := by
  have hne := phase_ne_ended_of_transition ht
  have hphase := h.phase
  have hrecalls := hr.phase
  cases ht with
  | stop _ hp => exact .unseen rfl (h.onward hne rfl rfl h.spent h.responded trivial)
  | ask _ hp =>
    have hask := h.ask hp (store.get t.nextRequest s).1
    simpa [shown, logged] using hask
  | fail _ hp =>
    rw [hp] at hphase hrecalls
    obtain ⟨⟨x, hx⟩, hone⟩ := hphase
    obtain ⟨done, hown, -⟩ := hrecalls
    obtain rfl := hx.eq_of_exchanges hown
    exact .unseen (concluded_refused t _).channel_eq
      (h.refused hc hne hx (Exchange.accepted_of_failure rfl) hone (.refused rfl))
  | accept _ hp ha hf =>
    rw [hp] at hphase hrecalls
    obtain ⟨⟨x, hx⟩, -⟩ := hphase
    obtain ⟨done, hown, -⟩ := hrecalls
    obtain rfl := hx.eq_of_exchanges hown
    have haccepted := accepted_of_accept ha
    obtain ⟨rfl, -⟩ := accept_eq_ok ha
    have hresponded : ∃ y ∈ exchanges events, y.accepted ≠ none :=
      ⟨_, hx.mem, haccepted ▸ Option.some_ne_none _⟩
    exact .unseen rfl (h.onward hne rfl rfl h.spent (fun _ => hresponded) ⟨_, hx⟩)
  | overflow _ hp ha hf => exact .unseen rfl (h.onward hne rfl rfl h.spent h.responded trivial)
  | reject _ hp ha =>
    rw [hp] at hphase hrecalls
    obtain ⟨⟨x, hx⟩, hone⟩ := hphase
    obtain ⟨done, hown, -⟩ := hrecalls
    obtain rfl := hx.eq_of_exchanges hown
    exact .unseen (concluded_refused t _).channel_eq
      (h.refused hc hne hx (fallsShort_of_reject ha).1 hone (failsAt_of_reject ha))
  | reach _ hp hd => exact .unseen rfl (h.onward hne rfl rfl h.spent h.responded trivial)
  | finish _ hp hd hn =>
    rw [hp] at hphase hrecalls
    obtain ⟨x, hx⟩ := hphase
    exact .unseen (concluded_bodyEnded t.gathered).channel_eq
      (h.gathered.bodyEnded hne (hc.reading _ hp) hx (hrecalls.1.congr rfl rfl) hrecalls.2)
  | breakOff _ hp hd hn =>
    rw [hp] at hphase hrecalls
    obtain ⟨x, hx⟩ := hphase
    obtain ⟨-, done, y, r, taken, hown, -, hacc, hbody, -, hl⟩ := hrecalls
    obtain rfl := hx.eq_of_exchanges hown
    refine .unseen (concluded_retry t.gathered _).channel_eq
      (h.gathered.retry hne (hc.reading _ hp) hx ?_)
    unfold located
    rw [← hl]
    exact .brokenOff ⟨r, _, hacc, hbody⟩
  | skip _ hp hd hn =>
    rw [hp] at hphase
    exact .unseen rfl (h.gathered.onward hne rfl rfl h.spent h.responded hphase)
  | take _ hp hd hn =>
    rw [hp] at hphase
    exact .unseen rfl (h.gathered.onward hne rfl rfl h.spent h.responded hphase)
  | hand _ hp _ hf => simpa [shown] using h.hand hp (.inl rfl)
  | overrun _ hp _ hf => simpa [shown] using h.hand hp (.inr rfl)
  | wake _ hp hl =>
    rw [hp] at hphase
    exact .unseen rfl (h.onward hne rfl rfl h.spent h.responded hphase)
  | close _ hp _ => simpa [shown] using h.close hc hp

/-- Every act keeps the account of a course. -/
theorem act {c : Course σ} (h : c.transfer.Reckoned offset c.events)
    (ht : c.Traced offset.toNat known) (store : Store σ) (a : Act) :
    (c.act store a).transfer.Reckoned offset (c.act store a).events := by
  cases a with
  | work =>
    simp only [Course.act, Course.work]
    split
    · exact h
    · rename_i t' outside xs hs
      rw [List.append_assoc]
      exact h.transition ht.recalls ht.coherent (transition_of_step hs)
  | pass span =>
    have hphase := h.phase
    simp only [Course.act, lapse]
    split
    · rename_i left hp
      rw [hp] at hphase
      exact h.onward (by simp [hp]) rfl rfl h.spent h.responded hphase
    · exact h
  | request n =>
    simp only [Course.act]
    split
    · rename_i u hu
      unfold Transfer.request at hu
      split at hu
      · cases hu
      · cases hu
        exact (h.append rfl rfl).congr rfl rfl rfl
    · exact h
  | next =>
    obtain ⟨y, u, hn⟩ : ∃ y u, c.transfer.next = (y, u) := ⟨_, _, rfl⟩
    obtain ⟨hplan, hprogress, hphase, -⟩ := next_frame hn
    simp only [Course.act, hn]
    exact (h.append rfl rfl).congr hplan hprogress hphase
  | cancel => exact (h.append rfl rfl).congr rfl rfl rfl

/-- Every course keeps the account. -/
theorem run {c : Course σ} (h : c.transfer.Reckoned offset c.events)
    (ht : c.Traced offset.toNat known) (store : Store σ) (acts : List Act) :
    (c.run store acts).transfer.Reckoned offset (c.run store acts).events := by
  induction acts generalizing c with
  | nil => exact h
  | cons a acts ih => exact ih (h.act ht store a) (ht.act store a)

end Reckoned

theorem Course.plan_run (store : Store σ) (c : Course σ) (acts : List Act) :
    (c.run store acts).transfer.plan = c.transfer.plan := by
  induction acts generalizing c with
  | nil => rfl
  | cons a acts ih => exact (ih _).trans (Course.plan_act store c a)

end Transfer

open Transfer

/-- A download that ends with a failure accounts for all its attempts, in any course and with any
store. If no response was accepted, there was exactly one request, and the failure carries no other.
Otherwise there was one request more than the failures carried, and these are as many as there were
retries, or fewer if the object has changed. The failure is the one of the last attempt and carries
those of all earlier ones, each once and in order, with the offset reached when it happened. -/
theorem Fetcher.failure_accounts (f : Fetcher) (store : Store σ) (s : σ) (acts : List Act)
    {e : Failure} (he : .handed (.failed e) ∈ ((f.course s).run store acts).events) :
    let events := ((f.course s).run store acts).events
    let made := Transfer.exchanges events
    ((∀ x ∈ made, x.accepted = none) → made.length = 1 ∧ e.suppressed = []) ∧
    ((∃ x ∈ made, x.accepted ≠ none) →
      made.length = e.suppressed.length + 1 ∧ e.suppressed.length ≤ f.plan.maxRetries ∧
        (e.kind ≠ .preconditionFailed → e.suppressed.length = f.plan.maxRetries)) ∧
    Reported f.offset events (e.suppressed ++ [{ e with suppressed := [] }]) := by
  intro events made
  have hkept : ((f.course s).run store acts).transfer.Reckoned f.offset events :=
    Reckoned.run (.start f.plan f.offset f.etag) (.ofStart f.plan f.offset f.etag s) store acts
  have haccounts := (hkept.handed e he).2
  rw [Course.plan_run] at haccounts
  have hlength : made.length = e.suppressed.length + 1 := by
    rw [haccounts.reported.length, List.length_append, List.length_singleton]
  refine ⟨fun hnone => ?_, fun hsome => ⟨hlength, haccounts.few, haccounts.exhausted hsome⟩,
    haccounts.reported⟩
  have hsup := haccounts.refused hnone
  exact ⟨by rw [hlength, hsup]; rfl, hsup⟩

/-- What a store answers whose first body breaks off, that refuses the next request, and whose last
body ends too early. -/
def falteringAnswers : List Answer :=
  [.response ⟨some "v1", some 4, [.chunk [101, 108], .failure (.io "Connection reset")]⟩,
    .failure (.io "Connection refused"),
    .response ⟨some "v1", some 2, [.chunk [108]]⟩]

/-- The download of an object from its second byte on, with two retries. -/
def falteringFetcher : Fetcher where
  plan := { location := ⟨"bucket", "hello"⟩, maxRetries := 2, retryDelay := .zero, capacity := 4 }
  offset := 1

/-- The task alone acts, once chunks are granted. -/
def falteringCourse : Course (List Answer) :=
  (falteringFetcher.course falteringAnswers).run .tape (.request 4 :: List.replicate 15 .work)

/-- The failure that the download ends with. -/
def falteringFailure : Failure :=
  (Failure.io "Body of s3://bucket/hello ended at offset 4 of 5").withSuppressed
    [(Failure.io "Connection reset").inContext
        "GET s3://bucket/hello at offset 3: Connection reset",
      (Failure.io "Connection refused").inContext
        "GET s3://bucket/hello at offset 3: Connection refused"]

/-- Two retries and three requests: the last body ends too early, and the two failures before it are
carried. -/
theorem Fetcher.failure_accounts_faltering :
    .handed (.failed falteringFailure) ∈ falteringCourse.events ∧
      falteringFailure.suppressed.length = 2 ∧
      (Transfer.exchanges falteringCourse.events).length = 3 ∧
      Reported 1 falteringCourse.events
        (falteringFailure.suppressed ++ [{ falteringFailure with suppressed := [] }]) := by
  have hlast : falteringCourse.events.getLast? = some (.handed (.failed falteringFailure)) := by cbv
  have hmem := List.mem_of_getLast? hlast
  have hfirst : ((Transfer.exchanges falteringCourse.events).head?.bind Exchange.accepted).isSome =
      true := by cbv
  obtain ⟨-, haccepted, hreported⟩ := falteringFetcher.failure_accounts .tape falteringAnswers
    (.request 4 :: List.replicate 15 .work) hmem
  obtain ⟨r, hr⟩ := Option.isSome_iff_exists.1 hfirst
  obtain ⟨x, hx, hacc⟩ := Option.bind_eq_some_iff.1 hr
  obtain ⟨hlength, -, hspent⟩ :=
    haccepted ⟨x, List.mem_of_head? hx, hacc ▸ Option.some_ne_none _⟩
  have hcarried : falteringFailure.suppressed.length = 2 := hspent (by decide)
  exact ⟨hmem, hcarried, hlength.trans (congrArg (· + 1) hcarried), hreported⟩

end QueryResults.Download
