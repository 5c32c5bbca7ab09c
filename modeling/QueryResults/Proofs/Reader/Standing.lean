import QueryResults.Proofs.Reader.Drain
import QueryResults.Proofs.Transfer.Version

/-!
# Readers and their exchanges

A reader leaves one attempt at a time to a transfer and keeps the failures of the earlier attempts
itself. So the exchanges of a download through a reader fall into those of the earlier transfers,
all of which let the reader down in another way than by a change of the object, and at most one of
the transfer under way. What the reader knows of the object's tag it has learned from its transfers,
so each of them begins under the tag that is known by then.

Nothing is asked of the store: it may replace the object, stall, or leave requests unanswered. A
read that times out learns nothing and changes nothing.

## Main definitions

* `Reader.Bound`: a reader and its transfer with all exchanges made.
* `Reader.Reached`: what the end of the data rests on.
* `Reader.Standing`: where a reader stands with the exchanges made.
* `Reader.reads`: a sequence of reads.

## Main results

* `Reader.Standing.fill`, `Reader.Standing.read`: waiting and reading keep to the exchanges.
* `Reader.standing_reads`: where a reader stands after any sequence of reads.
-/

namespace QueryResults.Download

open Store

namespace Transfer

variable {t t' : Transfer} {own : List Exchange} {known : Option String} {x : Exchange}

/-- Nothing has changed where no signal is there yet. -/
theorem eq_of_next_notYet (hn : t.next = (.notYet, t')) : t' = t := by
  unfold next at hn
  split at hn
  · cases hn
  · split at hn
    · cases hn
    · split at hn
      · cases hn
      · cases hn
        rfl

/-- A task from which no signal is there yet is not over. -/
theorem isEnded_of_next_notYet (hn : t.next = (.notYet, t')) : t.isEnded = false := by
  unfold next at hn
  split at hn
  · cases hn
  · split at hn
    · cases hn
    · split at hn
      · cases hn
      · rename_i hgo
        exact Bool.eq_false_iff.2 hgo

/-- What a transfer without earlier failures ends with rests on a single exchange. -/
theorem Grounded.eq_singleton {p : Progress} {y : Signal} (h : Grounded own p y)
    (hy : y.isTerminal = true) (hp : p.failures = []) : ∃ x, own = [x] := by
  cases y with
  | chunk b => cases hy
  | complete =>
    obtain ⟨done, x, r, rfl, hn, -⟩ := h
    rw [hp] at hn
    exact ⟨x, by rw [hn.eq_nil, List.nil_append]⟩
  | failed e =>
    obtain ⟨⟨done, x, e', rfl, -, hn, -⟩, hsuppressed⟩ := h
    rw [hsuppressed, hp] at hn
    exact ⟨x, by rw [hn.eq_nil, List.nil_append]⟩

/-- So does the breakdown of a transfer without earlier failures. -/
theorem Breaks.eq_singleton (h : t.Breaks own) (hp : t.progress.failures = []) :
    ∃ x, own = [x] := by
  obtain ⟨done, x, r, rfl, hn, -⟩ := h
  rw [hp] at hn
  exact ⟨x, by rw [hn.eq_nil, List.nil_append]⟩

/-- A transfer that does not pause does not ask again. -/
theorem phase_ne_opening_of_transition {σ : Type} {store : Store σ} {s s' : σ}
    (ht : Transition store t s t' s') (hs : ∀ left, t.phase ≠ .pausing left) :
    t'.phase ≠ .opening := by
  have concluded {u : Transfer} (h : u.Concluded t') : t'.phase ≠ .opening := by
    rcases h.phase_eq with ⟨last, hl, -⟩ | ⟨left, hl⟩ <;> rw [hl] <;> exact nofun
  cases ht with
  | fail hc hp => exact concluded (concluded_refused t _)
  | reject hc hp ha => exact concluded (concluded_refused t _)
  | finish hc hp hd hn => exact concluded (concluded_bodyEnded t.gathered)
  | breakOff hc hp hd hn => exact concluded (concluded_retry t.gathered _)
  | wake hc hp hl => exact absurd hp (hs _)
  | stop | ask | accept | overflow | reach | skip | take | hand | overrun | close => exact nofun

/-- Only a task that is about to ask makes an exchange. -/
theorem log_eq_of_transition {σ : Type} {store : Store σ} {v v' : σ × List Exchange}
    (ht : Transition store.logged t v t' v') (hp : t.phase ≠ .opening) : v'.2 = v.2 := by
  cases ht with
  | ask hc hp' => exact absurd hp' hp
  | _ => rfl

/-- A transfer of a single attempt makes one exchange at most. -/
theorem Recalls.length_le_one (h : t.Recalls known own) (hc : t.Coherent) (hs : t.Single)
    (hended : t.phase = .ended → Terminated t.channel) :
    own.length ≤ 1 := by
  have single (h : ∃ x, own = [x]) : own.length ≤ 1 := by
    obtain ⟨x, rfl⟩ := h
    exact Nat.le_refl _
  have reads {left : List Item} (hr : t.Reads own left) : own.length ≤ 1 := by
    obtain ⟨done, x, r, taken, rfl, hn, -⟩ := hr
    rw [hs.failures] at hn
    exact single ⟨x, by rw [hn.eq_nil, List.nil_append]⟩
  have hphase := h.phase
  cases hp : t.phase with
  | opening | pausing =>
    rw [hp] at hphase
    have hn := hphase.2
    rw [hs.failures] at hn
    rw [hn.eq_nil]
    exact Nat.zero_le _
  | awaiting answer =>
    rw [hp] at hphase
    obtain ⟨done, rfl, -, hn⟩ := hphase
    rw [hs.failures] at hn
    exact single ⟨_, by rw [hn.eq_nil, List.nil_append]⟩
  | reading body =>
    rw [hp] at hphase
    exact reads hphase.2
  | offering bytes body =>
    rw [hp] at hphase
    exact reads hphase.2.1
  | closing last =>
    rw [hp] at hphase
    exact single (hphase.2.eq_singleton (hc.closing last hp) hs.failures)
  | ended =>
    obtain ⟨y, hy, hlast⟩ := hended hp
    exact single ((h.channel y hy).eq_singleton hlast hs.failures)
  | lost =>
    rw [hp] at hphase
    exact single (hphase.2.eq_singleton hs.failures)

end Transfer

namespace Reader

variable {σ : Type} {store : Store σ} {r r' : Reader} {u u' : Transfer}
  {v v' : σ × List Exchange} {log log' : List Exchange} {x : Exchange} {e : Failure} {seen : Prop}

/-! ### A reader and its transfer -/

/-- The transfer of a reader and all exchanges that were made: those of the earlier transfers, noted
by the reader, and those of this one. -/
structure Bound (r : Reader) (u : Transfer) (log : List Exchange) : Prop where
  coherent : u.Coherent
  single : u.Single
  location : u.plan.location = r.location
  cancelled : u.cancelled = false
  closed : u.closed = false
  ended : u.phase = .ended → Transfer.Terminated u.channel
  room : 0 < u.plan.capacity
  delivered : u.progress.delivered =
    r.position + .ofNat (r.queue.flatten ++ u.channel.flatMap Signal.bytes).length
  etag : ∀ tag, r.etag = some tag → u.progress.etag = some tag
  asked : r.queue ≠ [] → u.phase ≠ .opening
  exchanges : ∃ earlier own, log = earlier ++ own ∧ Versioned none earlier ∧
    Noted earlier r.failures Exchange.LetsDown ∧ u.Recalls (tagAfter none earlier) own

namespace Bound

/-- A transfer that starts behind exchanges that all let the reader down, under the tag known by
then. -/
theorem restart (hq : r.queue = []) (hv : Versioned none log)
    (hn : Noted log r.failures Exchange.LetsDown) (he : r.etag = tagAfter none log) :
    Bound r.restart
      (.start ((Fetcher.ofSettings r.location r.settings).withRetries 0).plan r.position r.etag)
      log where
  coherent := .start _ _ _
  single := ⟨rfl, rfl, nofun⟩
  location := rfl
  cancelled := rfl
  closed := rfl
  ended := nofun
  room := Nat.le_max_right _ _
  delivered := by
    change r.position = r.position + .ofNat (r.queue.flatten ++ []).length
    simp [hq]
  etag _ h := h
  asked h := absurd hq h
  exchanges := ⟨log, [], (List.append_nil log).symm, hv, hn, he ▸ .start _ _ _⟩

theorem grant (h : Bound r u log) (n : UInt64) (outstanding : Nat) :
    Bound { r with transfer := some (u.grant n), outstanding } (u.grant n) log where
  coherent := h.coherent.grant n
  single := ⟨h.single.retriesLeft, h.single.failures, h.single.phase⟩
  location := h.location
  cancelled := h.cancelled
  closed := h.closed
  ended := h.ended
  room := h.room
  delivered := h.delivered
  etag := h.etag
  asked := h.asked
  exchanges := by
    obtain ⟨earlier, own, hlog, hv, hn, hrecalls⟩ := h.exchanges
    exact ⟨earlier, own, hlog, hv, hn, hrecalls.grant n⟩

/-- A step of the task. -/
theorem transition (h : Bound r u v.2) (ht : Transfer.Transition store.logged u v u' v') :
    Bound r u' v'.2 := by
  have hgrown := Transfer.grown_transition h.coherent.closing ht
  exact
    { coherent := h.coherent.transition ht
      single := h.single.transition ht
      location := (congrArg Transfer.Plan.location (Transfer.plan_transition ht)).trans h.location
      cancelled := (Transfer.cancelled_transition ht).trans h.cancelled
      closed := (Transfer.closed_transition ht).trans h.closed
      ended := fun hp => by
        obtain ⟨last, hl, hch⟩ := Transfer.closing_of_transition ht hp h.cancelled
        exact ⟨last, by simp [hch], h.coherent.closing last hl⟩
      room := (Transfer.plan_transition ht).symm ▸ h.room
      delivered := by
        obtain ⟨bytes, hd, hch⟩ := hgrown.bytes
        rw [hd, hch, h.delivered, UInt64.add_assoc, ← UInt64.ofNat_add, ← List.length_append,
          List.append_assoc]
      etag := fun tag htag => hgrown.etag tag (h.etag tag htag)
      asked := fun _ => Transfer.phase_ne_opening_of_transition ht h.single.phase
      exchanges := by
        obtain ⟨earlier, own, hlog, hv, hn, hrecalls⟩ := h.exchanges
        obtain ⟨own', hlog', hrecalls'⟩ := hrecalls.transition h.coherent hlog ht
        exact ⟨earlier, own', hlog', hv, hn, hrecalls'⟩ }

theorem settle (h : Bound r u v.2) :
    Bound r (Transfer.settle store.logged u v).1 (Transfer.settle store.logged u v).2.2 :=
  Transfer.settle_induction (P := fun u v => Bound r u v.2) (fun _ _ _ _ hu ht => hu.transition ht)
    h

theorem versioned (h : Bound r u log) : Versioned none log := by
  obtain ⟨earlier, own, rfl, hv, -, hrecalls⟩ := h.exchanges
  exact hv.append hrecalls.versioned

/-- The transfer knows the tag that the reader knows. -/
theorem orElse_etag (h : Bound r u log) : (r.etag <|> u.progress.etag) = u.progress.etag := by
  cases hr : r.etag with
  | none => rfl
  | some tag => simp [h.etag tag hr]

/-- The exchanges of the transfer are one at most. -/
theorem exists_own (h : Bound r u log) : ∃ earlier own, log = earlier ++ own ∧
    Versioned none earlier ∧ Noted earlier r.failures Exchange.LetsDown ∧
    u.Recalls (tagAfter none earlier) own ∧ (own = [] ∨ ∃ x, own = [x]) := by
  obtain ⟨earlier, own, hlog, hv, hn, hrecalls⟩ := h.exchanges
  have hle := hrecalls.length_le_one h.coherent h.single h.ended
  refine ⟨earlier, own, hlog, hv, hn, hrecalls, ?_⟩
  match own, hle with
  | [], _ => exact .inl rfl
  | [x], _ => exact .inr ⟨x, rfl⟩

/-- A chunk that is received goes from the channel to the queue. Behind it no change has been found:
it belongs to the only response of the transfer, which was accepted. -/
theorem next (r' : Reader) (h : Bound r u log) {b : List UInt8}
    (hn : u.next = (.signal (.chunk b), u')) (hlocation : r'.location = r.location)
    (hposition : r'.position = r.position)
    (hqueue : r'.queue = r.queue ++ [b]) (hfailures : r'.failures = r.failures)
    (hetag : r'.etag = (r.etag <|> u'.progress.etag)) :
    b ≠ [] ∧ (∀ x ∈ log, ¬x.FindsChange) ∧ Bound r' u' log := by
  obtain ⟨rest, hch, rfl⟩ := Transfer.next_eq_signal hn
  obtain ⟨earlier, own, rfl, hv, hnoted, hrecalls, hown⟩ := h.exists_own
  obtain ⟨hne, y, hy, response, hr, -⟩ := hrecalls.channel _ (hch ▸ List.mem_cons_self)
  refine ⟨hne, fun x hx hchange => ?_, ?_⟩
  · rcases List.mem_append.1 hx with hx | hx
    · exact hnoted.not_showsChange hx hchange.shows
    · rcases hown with rfl | ⟨z, rfl⟩
      · cases hy
      · rw [List.mem_singleton.1 hy, ← List.mem_singleton.1 hx, hchange.accepted] at hr
        cases hr
  · exact
      { coherent := h.coherent.next hn
        single := ⟨h.single.retriesLeft, h.single.failures, h.single.phase⟩
        location := h.location.trans hlocation.symm
        cancelled := h.cancelled
        closed := rfl
        ended := fun hp => by
          obtain ⟨z, hz, hz'⟩ := h.ended hp
          rcases List.mem_cons.1 (hch ▸ hz) with rfl | hz
          · cases hz'
          · exact ⟨z, hz, hz'⟩
        room := h.room
        delivered := by
          rw [hposition, hqueue, h.delivered, hch]
          simp [Signal.bytes]
        etag := fun tag htag => by
          rw [hetag, h.orElse_etag] at htag
          exact htag
        asked := fun _ hp => by
          have hphase := hrecalls.phase
          rw [show u.phase = .opening from hp] at hphase
          have hnone := hphase.2
          rw [h.single.failures] at hnone
          rw [hnone.eq_nil] at hy
          cases hy
        exchanges := ⟨earlier, own, rfl, hv, hfailures ▸ hnoted, hrecalls.next hn⟩ }

/-- What the last signal of a transfer rests on. -/
theorem of_terminal (h : Bound r u log) {y : Signal} (hn : u.next = (.signal y, u'))
    (hy : y.isTerminal = true) :
    ∃ earlier x, log = earlier ++ [x] ∧ Noted earlier r.failures Exchange.LetsDown ∧
      Transfer.Grounded [x] u.progress y ∧ u.progress.failures = [] ∧
      u.progress.delivered = r.position + .ofNat r.queue.flatten.length ∧
      (r.etag <|> u'.progress.etag) = tagAfter none log := by
  obtain ⟨rest, hch, rfl⟩ := Transfer.next_eq_signal hn
  obtain ⟨hch', hp⟩ := h.coherent.eq_of_terminal hch hy
  obtain ⟨earlier, own, rfl, hv, hnoted, hrecalls⟩ := h.exchanges
  have hgrounded := hrecalls.channel y (hch ▸ List.mem_cons_self)
  obtain ⟨x, rfl⟩ := hgrounded.eq_singleton hy h.single.failures
  have hknows := hrecalls.phase
  rw [hp] at hknows
  refine ⟨earlier, x, rfl, hnoted, hgrounded, h.single.failures, ?_, ?_⟩
  · rw [h.delivered, hch']
    simp [Signal.bytes_eq_nil hy]
  · rcases hknows with hc | hknows
    · cases h.cancelled.symm.trans hc
    · rw [h.orElse_etag, hknows.etag, tagAfter_append]

/-- No change has been found where nothing is to come from a transfer at rest. -/
theorem not_findsChange (h : Bound r u v.2) (hch : u.channel = [])
    (hrest : u.step store.logged v = none) : ∀ x ∈ v.2, ¬x.FindsChange := by
  obtain ⟨earlier, own, hlog, hv, hnoted, hrecalls⟩ := h.exchanges
  intro x hx hchange
  rw [hlog] at hx
  rcases List.mem_append.1 hx with hx | hx
  · exact hnoted.not_showsChange hx hchange.shows
  · rcases hrecalls.of_findsChange h.coherent hx hchange with hp | ⟨e, hp, -⟩ | hp
    · exact Transfer.step_ne_none_of_awaiting h.cancelled hp hchange.answer_ne_silence hrest
    · have hroom : u.hasRoom = true := by simp [Transfer.hasRoom, hch, h.room]
      simp [Transfer.step, Transfer.advance, hp, h.cancelled, hroom] at hrest
    · obtain ⟨y, hy, -⟩ := h.ended hp
      rw [hch] at hy
      cases hy

/-- Handing out bytes of the queue. -/
theorem advance (h : Bound r u log) (n : Nat) : Bound (r.advance n) u log where
  coherent := h.coherent
  single := h.single
  location := h.location
  cancelled := h.cancelled
  closed := h.closed
  ended := h.ended
  room := h.room
  delivered := by
    have hsize : min n r.front.length = (r.front.take n).length := List.length_take.symm
    rw [h.delivered, ← flatten_advance r n, List.append_assoc, List.length_append,
      UInt64.ofNat_add, ← UInt64.add_assoc, ← hsize]
    rfl
  etag := h.etag
  asked hq := h.asked fun hnil => hq (by simp [Reader.advance, front, hnil])
  exchanges := h.exchanges

end Bound

/-! ### A reader and its exchanges -/

/-- What the end of the data rests on: the last response was accepted, and either the end it
declared is reached, or it declared none and all of its body was taken. -/
def Reached (log : List Exchange) (position : UInt64) : Prop :=
  ∃ earlier failures x response, log = earlier ++ [x] ∧
    Noted earlier failures Exchange.LetsDown ∧ x.accepted = some response ∧
    ((∃ finish, x.finish = some finish ∧ finish ≤ position.toNat) ∨
      x.finish = none ∧ ∃ taken : List (List UInt8), response.body = taken.map .chunk ∧
        position = x.offset + .ofNat taken.flatten.length)

/-- Where a reader stands with the exchanges made. No answer has shown a change while the reader
goes on and has something in its queue, or the task has `seen` all answers. -/
inductive Standing (seen : Prop) (r : Reader) (log : List Exchange) : Prop
  | idle (hfailed : r.failed = none) (hfinished : r.finished = false) (ht : r.transfer = none)
      (hout : r.outstanding = 0) (hq : r.queue = []) (hlog : log = []) (he : r.etag = none)
      (hn : r.failures = [])
  | going {u : Transfer} (hfailed : r.failed = none) (hfinished : r.finished = false)
      (ht : r.transfer = some u) (hq : [] ∉ r.queue) (h : Bound r u log)
      (hno : seen ∨ r.queue ≠ [] → ∀ x ∈ log, ¬x.FindsChange)
  | finished (hfailed : r.failed = none) (hfinished : r.finished = true) (hq : r.queue = [])
      (hv : Versioned none log) (h : Reached log r.position)
  | failed {e : Failure} (hfailed : r.failed = some e.repeated) (hv : Versioned none log)
      (h : GivesUp log e Exchange.LetsDown)

/-- What waiting for a signal has come to. -/
inductive Told (seen : Prop) (log : List Exchange) : Filled Reader → Prop
  | ready {r : Reader} (h : Standing seen r log) (hfailed : r.failed = none)
      (hq : r.queue = [] → r.finished = true) : Told seen log (.ready r)
  | restarted {r : Reader} (h : Standing seen r log) (hfailed : r.failed = none)
      (hfinished : r.finished = false) (hq : r.queue = []) : Told seen log (.restarted r)
  | timedOut {r : Reader} {e : Failure} (hk : e.kind = .timeout) (hfailed : r.failed = none)
      (h : Standing seen r log) : Told seen log (.failed e r)
  | failed {r : Reader} {e : Failure} (hfailed : r.failed = some e.repeated)
      (hv : Versioned none log) (h : GivesUp log e Exchange.LetsDown) : Told seen log (.failed e r)

/-- A failed attempt is the last one, or another one begins under the tag known by then. -/
theorem Told.resume {earlier : List Exchange} (hfailed : r.failed = none)
    (hfinished : r.finished = false) (hlog : log = earlier ++ [x]) (hv : Versioned none log)
    (hn : Noted earlier r.failures Exchange.LetsDown) (hx : x.LetsDown e)
    (he : r.etag = tagAfter none log) : Told seen log (r.resume e) := by
  unfold Reader.resume
  split
  · exact .failed rfl hv (hlog ▸ .intro hn hx hx.suppressed)
  · rename_i hgo
    rw [not_or, not_or] at hgo
    have hnoted : Noted log (r.failures ++ [e]) Exchange.LetsDown := hlog ▸ hn.snoc hx hgo.2.1
    refine .restarted (.going hfailed hfinished rfl List.not_mem_nil ?_ ?_) hfailed hfinished rfl
    · exact .restart (r := { r with
        transfer := none, queue := [], queuedBytes := 0, retriesLeft := r.retriesLeft - 1,
        failures := r.failures ++ [e] }) rfl hv hnoted he
    · exact fun _ y hy hchange => hnoted.not_showsChange hy hchange.shows

/-- Nothing more is heard of a task that is over without a last signal: it has broken down. -/
theorem Bound.of_over (h : Bound r u log) (hn : u.next = (.over, u')) :
    ∃ earlier x, log = earlier ++ [x] ∧ Noted earlier r.failures Exchange.LetsDown ∧
      (∃ response, x.accepted = some response) ∧ x.Overruns ∧
      x.request.location = r.location ∧ (r.etag <|> u'.progress.etag) = tagAfter none log := by
  obtain ⟨hch, hover⟩ := Transfer.next_eq_over hn h.closed h.cancelled
  have hp : u.phase = .lost := (Transfer.isEnded_iff.1 hover).resolve_left fun hp => by
    obtain ⟨y, hy, -⟩ := h.ended hp
    rw [hch] at hy
    cases hy
  obtain ⟨earlier, own, rfl, hv, hnoted, hrecalls⟩ := h.exchanges
  have hphase := hrecalls.phase
  rw [hp] at hphase
  obtain ⟨hetag, hbreaks⟩ := hphase
  obtain ⟨x, rfl⟩ := hbreaks.eq_singleton h.single.failures
  obtain ⟨done, y, response, hown, -, hr, hoverruns, hl⟩ := hbreaks
  obtain rfl : x = y := by simpa using congrArg List.getLast? hown
  refine ⟨earlier, x, rfl, hnoted, ⟨response, hr⟩, hoverruns, hl.trans h.location, ?_⟩
  obtain ⟨-, hprogress, -⟩ := Transfer.next_frame hn
  rw [hprogress, h.orElse_etag, hetag, tagAfter_append]

/-- The next signal of a transfer is taken into account. -/
theorem Bound.hear (h : Bound r u log) (hfailed : r.failed = none) (hfinished : r.finished = false)
    (hq : r.queue = []) (hrest : seen → u.channel = [] → ∀ x ∈ log, ¬x.FindsChange) :
    Told seen log (r.hear u) := by
  unfold Reader.hear
  obtain ⟨y, u', hn⟩ : ∃ y u', u.next = (y, u') := ⟨_, _, rfl⟩
  rw [hn]
  cases y with
  | notYet =>
    obtain rfl := Transfer.eq_of_next_notYet hn
    refine .timedOut rfl hfailed (.going hfailed hfinished rfl (hq ▸ List.not_mem_nil)
      { h with } fun hseen => ?_)
    have hseen : seen := hseen.resolve_right fun hne => hne hq
    exact hrest hseen (Transfer.channel_eq_nil_of_next hn)
  | signal y =>
    cases y with
    | chunk b =>
      obtain ⟨hne, hno, h'⟩ := h.next
        { Reader.observe { r with transfer := some u' } u' with
          outstanding := r.outstanding - 1
          queuedBytes := r.queuedBytes + b.length
          queue := r.queue ++ [b] } hn rfl rfl rfl rfl rfl
      refine .ready (.going hfailed hfinished rfl ?_ h' fun _ => hno) hfailed ?_
      · simpa [receive, Reader.observe, hq, eq_comm] using hne
      · intro hnil
        simp at hnil
    | complete =>
      obtain ⟨earlier, x, hlog, hnoted, hgrounded, hnone, hd, -⟩ := h.of_terminal hn rfl
      refine .ready (.finished hfailed rfl hq h.versioned ?_) hfailed fun _ => rfl
      obtain ⟨done, y, response, hown, -, hr, hend⟩ := hgrounded
      obtain rfl : x = y := by simpa using congrArg List.getLast? hown
      rw [hd, hq, List.flatten_nil, Transfer.ofNat_length_nil] at hend
      rw [show endAfter [x] = x.finish by cases hx : x.finish <;> simp [endAfter, hx]] at hend
      exact ⟨earlier, r.failures, x, response, hlog, hnoted, hr, hend⟩
    | failed e =>
      obtain ⟨earlier, x, hlog, hnoted, ⟨hgives, hnone⟩, hfailures, -, he⟩ := h.of_terminal hn rfl
      rw [hfailures] at hnone
      obtain ⟨done, y, e', hown, hx, -, hee⟩ := hgives
      obtain rfl : x = y := by simpa using congrArg List.getLast? hown
      rw [hnone, Failure.withSuppressed_nil] at hee
      exact .resume hfailed hfinished hlog h.versioned hnoted (.fellShort (hee ▸ hx)) he
  | _ =>
    obtain ⟨earlier, x, hlog, hnoted, ⟨response, hr⟩, hoverruns, hl, he⟩ := h.of_over hn
    exact .resume hfailed hfinished hlog h.versioned hnoted (.stopped hr hoverruns hl.symm) he

namespace Standing

theorem ofLocation (location : Location) (settings : Settings.Download) :
    Standing seen (.ofLocation location settings) [] :=
  .idle rfl rfl rfl rfl rfl rfl rfl rfl

/-- Each request is made under the tag known by then. -/
theorem versioned (h : Standing seen r log) : Versioned none log := by
  cases h with
  | idle _ _ _ _ _ hlog => exact hlog ▸ .nil
  | going _ _ _ _ h => exact h.versioned
  | finished _ _ _ hv => exact hv
  | failed _ hv => exact hv

/-- Granting demand asks for nothing. -/
theorem replenish (h : Standing seen r log) : Standing seen r.replenish log := by
  have granted {r : Reader} {u : Transfer} (hfailed : r.failed = none)
      (hfinished : r.finished = false) (hq : [] ∉ r.queue) (h : Bound r u log)
      (hno : seen ∨ r.queue ≠ [] → ∀ x ∈ log, ¬x.FindsChange) :
      Standing seen { r with transfer := some (u.grant (.ofNat r.batch)), outstanding := r.batch }
        log :=
    .going hfailed hfinished rfl hq (h.grant _ _) hno
  rcases replenish_cases r with ⟨he, -⟩ | ⟨hfinished, hfailed, -, u, hu, he⟩
  · rwa [he]
  · rw [he]
    cases hu with
    | current hu =>
      cases h with
      | idle _ _ ht => cases ht.symm.trans hu
      | going _ _ ht hq h hno =>
        obtain rfl := Option.some.inj (ht.symm.trans hu)
        exact granted hfailed hfinished hq h hno
      | finished _ hdone => cases hfinished.symm.trans hdone
      | failed hdone => cases hfailed.symm.trans hdone
    | fresh hnone hu =>
      cases hu
      cases h with
      | idle _ _ _ _ hq hlog hetag hn =>
        have hbound : Bound r.restart _ log :=
          .restart hq (hlog ▸ .nil) (by rw [hlog, hn]; exact .nil)
            (by rw [hlog, hetag, tagAfter_nil])
        have hnil : [] ∉ r.restart.queue := by
          rw [show r.restart.queue = [] from hq]
          exact List.not_mem_nil
        exact granted (r := r.restart) hfailed hfinished hnil hbound (by simp [hlog])
      | going _ _ ht => cases ht.symm.trans hnone
      | finished _ hdone => cases hfinished.symm.trans hdone
      | failed hdone => cases hfailed.symm.trans hdone

/-- Handing out bytes asks for nothing. -/
theorem take (h : Standing seen r log) (hready : r.queue = [] → r.finished = true) (n : Nat) :
    Standing seen (r.take n).2 log := by
  refine Standing.replenish ?_
  cases h with
  | idle _ hfinished _ _ hq => cases hfinished.symm.trans (hready hq)
  | going hfailed hfinished ht hq h hno =>
    exact .going hfailed hfinished ht (Sound.nil_notMem_advance hq n) (h.advance n)
      fun hseen => hno (hseen.imp_right fun hne hnil => hne (by simp [Reader.advance, front, hnil]))
  | finished hfailed hfinished hq hv h =>
    have hstay : (r.advance n).position = r.position := by
      have hfront : r.front = [] := by simp [front, hq]
      simp [Reader.advance, hfront]
    refine .finished hfailed hfinished ?_ hv (hstay ▸ h)
    simp [Reader.advance, front, hq]
  | failed hfailed hv h => exact .failed hfailed hv h

/-- Where something can be handed out or the end is reached, no answer has shown a change. -/
theorem not_findsChange (h : Standing seen r log) (hfailed : r.failed = none)
    (hready : r.queue = [] → r.finished = true) : ∀ x ∈ log, ¬x.FindsChange := by
  cases h with
  | idle _ _ _ _ _ hlog => simp [hlog]
  | going _ hgo _ _ _ hno =>
    exact hno (.inr fun hq => Bool.false_ne_true (hgo.symm.trans (hready hq)))
  | finished _ _ _ _ h =>
    obtain ⟨earlier, failures, x, response, rfl, hnoted, hr, -⟩ := h
    intro y hy hchange
    rcases List.mem_append.1 hy with hy | hy
    · exact hnoted.not_showsChange hy hchange.shows
    · rw [List.mem_singleton.1 hy] at hchange
      cases hchange.accepted.symm.trans hr
  | failed hf => cases hf.symm.trans hfailed

/-- Nothing is handed out only at the end. -/
theorem finished_of_take (h : Standing seen r log) (hfailed : r.failed = none)
    (hready : r.queue = [] → r.finished = true) {n : Nat} (hn : n ≠ 0)
    (hnil : (r.take n).1 = []) : (r.take n).2.finished = true := by
  have hstay : (r.take n).2.finished = r.finished := finished_replenish (r.advance n)
  rw [hstay]
  cases h with
  | idle _ _ _ _ hq => exact hready hq
  | going _ _ _ hq =>
    refine hready ?_
    cases hqueue : r.queue with
    | nil => rfl
    | cons c queue =>
      exfalso
      rw [hqueue] at hq
      have hc : c = [] := by simpa [Reader.take, front, hqueue, hn] using hnil
      exact hq (hc ▸ List.mem_cons_self)
  | finished _ hfinished => exact hfinished
  | failed hf => cases hf.symm.trans hfailed

/-- Waiting for a signal with an empty queue. -/
theorem fill (h : Standing seen r v.2) (hfailed : r.failed = none) (hfinished : r.finished = false)
    (hq : r.queue = []) :
    Told seen (Reader.fill store.logged r v).2.2 (Reader.fill store.logged r v).1 := by
  have hreplenish := h.replenish
  have hidle : r.transfer = none → r.outstanding = 0 := by
    intro ht
    cases h with
    | idle _ _ _ hout => exact hout
    | going _ _ ht' => cases ht.symm.trans ht'
    | finished _ hf => cases hfinished.symm.trans hf
    | failed hf => cases hfailed.symm.trans hf
  obtain ⟨u, hu, -⟩ := exists_transfer_replenish hfailed hidle hq hfinished
  cases hreplenish with
  | idle _ _ ht => cases hu.symm.trans ht
  | going hfailed' hfinished' ht hq' hbound hno =>
    obtain rfl := Option.some.inj (hu.symm.trans ht)
    unfold Reader.fill listen
    rw [hu]
    exact hbound.settle.hear hfailed' hfinished' ((queue_replenish r).trans hq)
      fun _ hch => hbound.settle.not_findsChange hch (Transfer.step_settle _ _ _)
  | finished _ hf => cases hfinished.symm.trans ((finished_replenish r).symm.trans hf)
  | failed hf => cases hfailed.symm.trans ((failed_replenish r).symm.trans hf)

/-- Waiting until there is something in the queue, or the end is reached. -/
theorem refill (store : Store σ) (h : Standing seen r v.2) (hfailed : r.failed = none)
    (hfinished : r.finished = false) (hq : r.queue = []) :
    match Reader.refill store.logged r v with
    | (.ok (), r', v') => Told seen v'.2 (.ready r')
    | (.error e, r', v') => Told seen v'.2 (.failed e r') := by
  have hfill {r : Reader} {v : σ × List Exchange} {z : Filled Reader × σ × List Exchange}
      (h : Standing seen r v.2) (hfailed : r.failed = none) (hfinished : r.finished = false)
      (hq : r.queue = []) (hf : Reader.fill store.logged r v = z) : Told seen z.2.2 z.1 :=
    hf ▸ h.fill hfailed hfinished hq
  fun_induction Reader.refill store.logged r v with
  | case1 r v r₁ v₁ hf => exact hfill h hfailed hfinished hq hf
  | case2 r v e r₁ v₁ hf => exact hfill h hfailed hfinished hq hf
  | case3 r v r₁ v₁ hf ih =>
    cases hfill h hfailed hfinished hq hf with
    | restarted h' hfailed' hfinished' hq' => exact ih h' hfailed' hfinished' hq'

/-- What a read comes to that asks for one byte at least. -/
inductive Got (seen : Prop) (r : Reader) (log : List Exchange) (r' : Reader)
    (log' : List Exchange) : Except Failure (List UInt8) → Prop
  | bytes {bytes : List UInt8} (hr : r.failed = none) (h : Standing seen r' log')
      (hfailed : r'.failed = none) (hno : ∀ x ∈ log', ¬x.FindsChange)
      (hend : bytes = [] → r'.finished = true) : Got seen r log r' log' (.ok bytes)
  | timedOut {e : Failure} (hr : r.failed = none) (h : Standing seen r' log')
      (hfailed : r'.failed = none) (hk : e.kind = .timeout) : Got seen r log r' log' (.error e)
  | failed {e : Failure} (hr : r.failed = none) (hfailed : r'.failed = some e.repeated)
      (hv : Versioned none log') (h : GivesUp log' e Exchange.LetsDown) :
      Got seen r log r' log' (.error e)
  | again {e : Failure} (hfailed : r.failed = some e) (hr : r' = r) (hlog : log' = log) :
      Got seen r log r' log' (.error e.repeated)

/-- Bytes of the queue are handed out, or none at the end. -/
theorem Got.taken {r₁ : Reader} (hr : r.failed = none) (h : Standing seen r₁ log')
    (hfailed : r₁.failed = none) (hready : r₁.queue = [] → r₁.finished = true) {n : Nat}
    (hn : n ≠ 0) : Got seen r log (r₁.take n).2 log' (.ok (r₁.take n).1) :=
  .bytes hr (h.take hready n) ((failed_replenish _).trans hfailed)
    (h.not_findsChange hfailed hready) (h.finished_of_take hfailed hready hn)

/-- A read keeps to the exchanges made. -/
theorem read (h : Standing seen r v.2) {n : Nat} (hn : n ≠ 0) {y : Except Failure (List UInt8)}
    (hr : Reader.read store.logged n r v = (y, r', v')) : Got seen r v.2 r' v'.2 y := by
  unfold Reader.read at hr
  rw [if_neg hn] at hr
  cases hfailed : r.failed with
  | some e =>
    simp only [hfailed] at hr
    cases hr
    exact .again hfailed rfl rfl
  | none =>
    simp only [hfailed, Bool.and_eq_true, List.isEmpty_iff, Bool.not_eq_true'] at hr
    split at hr
    · rename_i hwait
      obtain ⟨z, r₁, v₁, hrefill⟩ : ∃ z r₁ v₁, Reader.refill store.logged r v = (z, r₁, v₁) :=
        ⟨_, _, _, rfl⟩
      have htold := h.refill store hfailed hwait.2 hwait.1
      rw [hrefill] at hr htold
      cases z with
      | error e =>
        cases hr
        cases htold with
        | timedOut hk hfailed' h' => exact .timedOut hfailed h' hfailed' hk
        | failed hfailed' hv h' => exact .failed hfailed hfailed' hv h'
      | ok =>
        cases hr
        cases htold with
        | ready h' hfailed' hready => exact .taken hfailed h' hfailed' hready hn
    · rename_i hready
      cases hr
      refine .taken hfailed h hfailed (fun hq => ?_) hn
      simpa [hq] using hready

theorem of_got {y : Except Failure (List UInt8)} (h : Standing seen r log)
    (hy : Got seen r log r' log' y) : Standing seen r' log' := by
  cases hy with
  | bytes _ h' => exact h'
  | timedOut _ h' => exact h'
  | failed _ hfailed hv h' => exact .failed hfailed hv h'
  | again _ hr hlog => exact hr ▸ hlog ▸ h

end Standing

/-! ### Sequences of reads -/

/-- Reads in sequence, of at most so many bytes each, whatever comes of them. -/
def reads (store : Store σ) (sizes : List Nat) (r : Reader) (s : σ) : Reader × σ :=
  sizes.foldl (fun p n => (read store n p.1 p.2).2) (r, s)

/-- Where a reader stands after any sequence of reads. -/
theorem Standing.reads (h : Standing seen r v.2) (sizes : List Nat) :
    Standing seen (Reader.reads store.logged sizes r v).1
      (Reader.reads store.logged sizes r v).2.2 := by
  induction sizes generalizing r v with
  | nil => exact h
  | cons n sizes ih =>
    refine ih (r := (Reader.read store.logged n r v).2.1)
      (v := (Reader.read store.logged n r v).2.2) ?_
    by_cases hn : n = 0
    · rw [Reader.read, if_pos hn]
      exact h
    · exact h.of_got (h.read hn rfl)

/-- Where the reader of an object stands after any sequence of reads. -/
theorem standing_reads (location : Location) (settings : Settings.Download) (s : σ)
    (sizes : List Nat) :
    Standing True (Reader.reads store.logged sizes (ofLocation location settings) (s, [])).1
      (Reader.reads store.logged sizes (ofLocation location settings) (s, [])).2.2 :=
  Standing.reads (v := (s, [])) (.ofLocation location settings) sizes

end Reader

end QueryResults.Download
