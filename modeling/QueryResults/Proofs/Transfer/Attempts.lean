import QueryResults.Proofs.Transfer.Sound

/-!
# Why a transfer gives up

The log of a store tells what each attempt of a transfer came to: a failure, a response whose body
holds all that was asked for, or one whose body breaks off before. A transfer of an unchanging
object ends in a failure for one of three reasons, all of them found in the log: the only request
was refused, the object was found to have changed, or more attempts fell short than the plan allows
for.

## Main definitions

* `Store.Exchange.isWhole`, `Store.Exchange.BreaksCondition`, `Store.shortfalls`.
* `Transfer.Blamed`: the reasons for a failure.
* `Transfer.Charged`: every attempt that fell short is accounted for.

## Main results

* `Transfer.Charged.transition`: a step of the task keeps the account.
-/

namespace QueryResults.Store

/-- Whether an attempt was answered with all the bytes asked for. -/
def Exchange.isWhole (o : Object) (x : Exchange) : Bool :=
  match x.answer with
  | .response r => r.bytes == o.bytes.drop x.request.offset
  | _ => false

/-- An attempt that found the object changed: the store says so, or the tag does. -/
def Exchange.BreaksCondition (x : Exchange) : Prop :=
  match x.answer with
  | .failure e => e.kind = .preconditionFailed
  | .response r =>
    (∃ e, .failure e ∈ r.body ∧ e.kind = .preconditionFailed) ∨
      ∃ expected actual, x.request.ifMatch = some expected ∧ r.etag = some actual ∧
        expected ≠ actual
  | .silence => False

/-- How many attempts in a log fell short of what was asked for. -/
def shortfalls (o : Object) (log : List Exchange) : Nat := log.countP (!·.isWhole o)

theorem shortfalls_append_singleton (o : Object) (log : List Exchange) (x : Exchange) :
    shortfalls o (log ++ [x]) = shortfalls o log + if x.isWhole o then 0 else 1 := by
  cases h : x.isWhole o <;> simp [shortfalls, h]

end QueryResults.Store

namespace QueryResults.Download.Transfer

open Store

variable {σ : Type} {store : Store σ} {t t' : Transfer} {s s' : σ} {o : Object}
  {log log' : List Exchange}

/-- Why a transfer with the given number of retries ends in a failure. -/
inductive Blamed (o : Object) (retries : Nat) (log : List Exchange) : Prop
  | refused (q : Request) (e : Failure) (h : log = [⟨q, .failure e⟩])
  | changed (x : Exchange) (hx : x ∈ log) (h : x.BreaksCondition)
  | exhausted (h : retries < shortfalls o log)

/-- The attempts in a log before the next one, each of which fell short and left a failure. -/
def Spent (o : Object) (p : Progress) (log : List Exchange) : Prop :=
  shortfalls o log = p.failures.length ∧ (p.responded = false → log = [])

/-- A log whose last exchange is the response from whose body `left` is still to be taken. -/
def Served (o : Object) (p : Progress) (log : List Exchange) (left : List Item) : Prop :=
  ∃ earlier q r taken, log = earlier ++ [⟨q, .response r⟩] ∧
    shortfalls o earlier = p.failures.length ∧ r.body = taken ++ left ∧
    p.delivered.toNat = q.offset + (taken.flatMap Item.bytes).length

/-- What the log tells in a phase. -/
def Phase.Charged (o : Object) (t : Transfer) (log : List Exchange) : Phase → Prop
  | .opening | .pausing _ => Spent o t.progress log
  | .awaiting a => ∃ earlier, log = earlier ++ [⟨t.nextRequest, a⟩] ∧ Spent o t.progress earlier
  | .reading body => Served o t.progress log body
  | .offering b body => Served o t.progress log (.chunk b :: body)
  | .closing _ | .ended | .lost => True

/-- The account between a transfer and the log of its store. -/
structure Charged (o : Object) (log : List Exchange) (t : Transfer) : Prop where
  spent : t.progress.failures.length + t.progress.retriesLeft = t.plan.maxRetries
  phase : t.phase.Charged o t log
  blamed : ∀ e, t.phase = .closing (.failed e) ∨ .failed e ∈ t.channel →
    Blamed o t.plan.maxRetries log

/-- A response with nothing left to take before the end of the object fell short. -/
theorem Served.shortfalls_eq {p : Progress} {left : List Item} (h : Served o p log left)
    (hleft : left.flatMap Item.bytes = []) (hlt : p.delivered.toNat < o.bytes.length) :
    shortfalls o log = p.failures.length + 1 := by
  obtain ⟨earlier, q, r, taken, rfl, hcount, hbody, hd⟩ := h
  have hshort : Exchange.isWhole o ⟨q, .response r⟩ = false := by
    have hbytes : r.bytes = taken.flatMap Item.bytes := by
      rw [Response.bytes, hbody, List.flatMap_append, hleft, List.append_nil]
    simp only [Exchange.isWhole, hbytes, beq_eq_false_iff_ne]
    intro heq
    have := congrArg List.length heq
    rw [List.length_drop] at this
    omega
  rw [shortfalls_append_singleton, hcount, hshort]
  rfl

/-- A failure that is left in a body shows in the log. -/
theorem Served.mem_body {p : Progress} {left : List Item} {e : Failure}
    (h : Served o p log (.failure e :: left)) (hk : e.kind = .preconditionFailed) :
    ∃ x ∈ log, x.BreaksCondition := by
  obtain ⟨earlier, q, r, taken, rfl, -, hbody, -⟩ := h
  refine ⟨_, List.mem_append_right _ (List.mem_singleton_self _), .inl ⟨e, ?_, hk⟩⟩
  rw [hbody]
  exact List.mem_append_right _ List.mem_cons_self

/-- An item taken from a body is no longer left, and its bytes have been passed. -/
theorem Served.take {p p' : Progress} {i : Item} {left : List Item}
    (h : Served o p log (i :: left)) (hf : p'.failures = p.failures)
    (hd : p'.delivered.toNat = p.delivered.toNat + i.bytes.length) : Served o p' log left := by
  obtain ⟨earlier, q, r, taken, rfl, hcount, hbody, hp⟩ := h
  refine ⟨earlier, q, r, taken ++ [i], rfl, hf ▸ hcount, by simp [hbody], ?_⟩
  rw [hd, hp]
  simp [Nat.add_assoc]

/-- An object found to have changed ends a transfer, however many retries are left. -/
theorem refused_of_preconditionFailed {e : Failure} (hk : e.kind = .preconditionFailed) :
    ∃ e', t.refused e = { t with phase := .closing (.failed e') } := by
  unfold refused
  split
  · refine ⟨(t.located e).withSuppressed t.progress.failures, ?_⟩
    unfold retry
    rw [if_pos (.inl hk)]
  · exact ⟨_, rfl⟩

namespace Charged

theorem start {plan : Plan} {offset : UInt64} {etag : Option String} :
    Charged o [] (start plan offset etag) where
  spent := Nat.zero_add _
  phase := ⟨rfl, fun _ => rfl⟩
  blamed e he := by
    rcases he with he | he
    · cases he
    · cases he

/-- A task that has not ended goes on with another phase. -/
theorem withPhase (hs : Sound o t) (h : Charged o log t) (hp : t.phase ≠ .ended) {ph : Phase}
    (hph : ph.Charged o { t with phase := ph } log')
    (hb : ∀ e, ph = .closing (.failed e) → Blamed o t.plan.maxRetries log') :
    Charged o log' { t with phase := ph } where
  spent := h.spent
  phase := hph
  blamed e he := by
    rcases he with he | he
    · exact hb e he
    · cases (hs.not_terminal hp he)

/-- A shortfall is followed by another attempt, or by giving up for a reason. -/
theorem retry {e : Failure} (hs : Sound o t)
    (hspent : t.progress.failures.length + t.progress.retriesLeft = t.plan.maxRetries)
    (hp : t.phase ≠ .ended) (hr : t.progress.responded = true)
    (hcount : shortfalls o log = t.progress.failures.length + 1)
    (hcond : e.kind = .preconditionFailed → ∃ x ∈ log, x.BreaksCondition) :
    Charged o log (t.retry e) := by
  have hno {e' : Failure} : .failed e' ∉ t.channel := fun he => by cases hs.not_terminal hp he
  unfold Transfer.retry
  split
  · rename_i hstop
    exact
      { spent := hspent
        phase := trivial
        blamed := fun _ _ => by
          rcases hstop with hk | hl
          · obtain ⟨x, hx, hb⟩ := hcond hk
            exact .changed x hx hb
          · exact .exhausted (by simp only; omega) }
  · rename_i hgo
    rw [not_or] at hgo
    exact
      { spent := by
          simp only [List.length_append, List.length_singleton]
          omega
        phase := by
          refine ⟨?_, fun hr' => by cases hr.symm.trans hr'⟩
          simpa using hcount
        blamed := fun e' he => by
          rcases he with he | he
          · cases he
          · exact absurd he hno }

theorem gathered (h : Charged o log t) : Charged o log t.gathered where
  spent := h.spent
  phase := h.phase
  blamed := h.blamed

/-- A failed request is a shortfall. -/
theorem fail {e : Failure} (hs : Sound o t) (h : Charged o log t)
    (hp : t.phase = .awaiting (.failure e)) : Charged o log (t.refused e) := by
  have hphase := h.phase
  rw [hp] at hphase
  obtain ⟨earlier, rfl, hcount, hfirst⟩ := hphase
  unfold Transfer.refused
  split
  · rename_i hr
    refine Charged.retry hs h.spent (phase_ne_ended hp rfl) hr ?_ fun hk => ?_
    · rw [shortfalls_append_singleton, hcount]
      rfl
    · exact ⟨_, List.mem_append_right _ (List.mem_singleton_self _), hk⟩
  · rename_i hr
    refine h.withPhase hs (phase_ne_ended hp rfl) trivial fun _ _ => ?_
    rw [hfirst (Bool.not_eq_true _ ▸ hr)]
    exact .refused _ _ rfl

/-- The body of an accepted response is all left. -/
theorem accept {r : Response} {p : Progress} (hs : Sound o t) (h : Charged o log t)
    (hp : t.phase = .awaiting (.response r)) (ha : t.progress.accept r = .ok p) :
    Charged o log { t with progress := p, phase := .reading r.body } := by
  have hphase := h.phase
  rw [hp] at hphase
  obtain ⟨earlier, rfl, hcount, -⟩ := hphase
  obtain ⟨rfl, -⟩ := accept_eq_ok ha
  exact
    { spent := h.spent
      phase := ⟨earlier, t.nextRequest, r, [], rfl, hcount, rfl, by
        rw [offset_nextRequest]
        rfl⟩
      blamed := fun e he => by
        rcases he with he | he
        · cases he
        · cases hs.not_terminal (phase_ne_ended hp rfl) he }

/-- A body that ends too early is a shortfall. -/
theorem finish (hs : Sound o t) (h : Charged o log t) (hp : t.phase = .reading [])
    (hd : t.progress.isComplete = false) : Charged o log t.gathered.bodyEnded := by
  have hphase := h.phase
  have hsphase := hs.phase
  rw [hp] at hphase hsphase
  obtain ⟨f, hf, heq, hlt⟩ := hs.lt_of_not_isComplete hsphase.1 hd
  have hlt' : t.progress.delivered < f := by rwa [UInt64.lt_iff_toNat_lt, heq]
  have hended : t.gathered.bodyEnded = t.gathered.retry
      (.io s!"Body of {t.plan.location} ended at offset {t.progress.delivered} of {f}") := by
    simp [bodyEnded, Transfer.gathered, hf, hlt']
  rw [hended]
  exact Charged.retry hs.gathered h.spent (phase_ne_ended hp rfl) hsphase.1
    (hphase.shortfalls_eq rfl hlt) fun hk => by cases hk

/-- A body that breaks off is a shortfall. -/
theorem breakOff {e : Failure} {body : List Item} (hs : Sound o t) (h : Charged o log t)
    (hp : t.phase = .reading (.failure e :: body)) (hd : t.progress.isComplete = false) :
    Charged o log (t.gathered.retry (t.located e)) := by
  have hphase := h.phase
  have hsphase := hs.phase
  rw [hp] at hphase hsphase
  obtain ⟨f, -, -, hlt⟩ := hs.lt_of_not_isComplete hsphase.1 hd
  obtain rfl : body = [] := hsphase.2.eq_nil_of_failure
  exact Charged.retry hs.gathered h.spent (phase_ne_ended hp rfl) hsphase.1
    (hphase.shortfalls_eq rfl hlt) hphase.mem_body

/-- A signal is put into the channel of a task that had not ended. -/
theorem blamed_append {last : Signal} (hs : Sound o t) (hp : t.phase ≠ .ended) {limit : Nat}
    (hlast : ∀ e, last = .failed e → Blamed o limit log) (e : Failure)
    (he : .failed e ∈ t.channel ++ [last]) : Blamed o limit log := by
  rcases List.mem_append.1 he with he | he
  · cases hs.not_terminal hp he
  · exact hlast e (List.mem_singleton.1 he).symm

/-- A chunk that is handed over is taken from the body. -/
theorem hand {bytes : List UInt8} {body : List Item} (hs : Sound o t) (h : Charged o log t)
    (hp : t.phase = .offering bytes body) :
    Charged o log
      { t with
        channel := t.channel ++ [.chunk bytes]
        progress := t.progress.afterChunk bytes
        phase := .reading body } := by
  have hphase := h.phase
  have hsphase := hs.phase
  rw [hp] at hphase hsphase
  have hle := hsphase.2.1.le_of_drop_chunk hs.delivered_le
  exact
    { spent := h.spent
      phase := hphase.take rfl (toNat_add_ofNat (Nat.lt_of_le_of_lt hle o.size_lt))
      blamed := fun e he => by
        rcases he with he | he
        · cases he
        · exact blamed_append hs (phase_ne_ended hp rfl) (fun _ hx => by cases hx) e he }

/-- The last signal is put into the channel for the same reason for which the task is closing. -/
theorem close {last : Signal} (hs : Sound o t) (h : Charged o log t)
    (hp : t.phase = .closing last) :
    Charged o log { t with channel := t.channel ++ [last], phase := .ended } where
  spent := h.spent
  phase := trivial
  blamed e he := by
    rcases he with he | he
    · cases he
    · exact blamed_append hs (phase_ne_ended hp rfl)
        (fun e hlast => h.blamed e (.inl (hlast ▸ hp))) e he

/-- A step of the task keeps the account, with the log that it leaves. -/
theorem transition (hs : Sound o t) (h : Charged o log t)
    (ht : Transition store.logged t (s, log) t' (s', log')) : Charged o log' t' := by
  have hphase := h.phase
  cases ht with
  | stop hc hp => exact h.withPhase hs (phase_ne_ended rfl hp) trivial fun _ he => by cases he
  | ask hc hp =>
    rw [hp] at hphase
    exact h.withPhase hs (phase_ne_ended hp rfl) ⟨log, rfl, hphase⟩ fun _ he => by cases he
  | fail hc hp => exact h.fail hs hp
  | accept hc hp ha hf => exact h.accept hs hp ha
  | overflow hc hp ha hf => cases (hs.fits hp).symm.trans hf
  | reject hc hp ha =>
    rw [hp] at hphase
    obtain ⟨earlier, rfl, -⟩ := hphase
    obtain ⟨hk, changed⟩ := accept_eq_error ha
    obtain ⟨e', he'⟩ := refused_of_preconditionFailed (t := t) hk
    rw [he']
    exact h.withPhase hs (phase_ne_ended hp rfl) trivial fun _ _ =>
      .changed _ (List.mem_append_right _ (List.mem_singleton_self _)) (.inr changed)
  | reach hc hp hd =>
    exact h.withPhase hs (phase_ne_ended hp rfl) trivial fun _ he => by cases he
  | finish hc hp hd hn => exact h.finish hs hp hd
  | breakOff hc hp hd hn => exact h.breakOff hs hp hd
  | skip hc hp hd hn =>
    rw [hp] at hphase
    exact h.gathered.withPhase hs.gathered (phase_ne_ended hp rfl) (hphase.take rfl rfl)
      fun _ he => by cases he
  | take hc hp hd hn =>
    rw [hp] at hphase
    exact h.gathered.withPhase hs.gathered (phase_ne_ended hp rfl) hphase fun _ he => by cases he
  | hand hc hp hr hf => exact h.hand hs hp
  | overrun hc hp hr hf => cases (hs.reaches hp).symm.trans hf
  | wake hc hp hl =>
    rw [hp] at hphase
    exact h.withPhase hs (phase_ne_ended hp rfl) hphase fun _ he => by cases he
  | close hc hp hr => exact h.close hs hp

end Charged

end QueryResults.Download.Transfer
