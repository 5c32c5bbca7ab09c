import QueryResults.Proofs.Paged.Journal
import QueryResults.Proofs.Service.Dialogue

/-!
# What a cursor over pages asks for

The dialogue that a cursor over pages has with its service is orderly, whatever is called and
whatever becomes of the requests: at most one of them is in flight, none is repeated before it has
failed, and none is made after the last page. The argument is an invariant of cursor and dialogue:
between any two calls, and between any two pages of one call, the cursor stands in one of four ways
to the dialogue so far (`Paged.Abreast`), and in each of them the only request that it can make is
the one that is due.

The timeout and the interrupt appear nowhere in the invariant. They only decide whether a wait is
begun and what failure it ends with.

## Main definitions

* `Paged.Stands`, `Paged.Abreast`: how a cursor stands to the dialogue.
* `Paged.Disciplined`: what holds of a cursor and its dialogue.
* `Paged.loads`: a cursor after a number of pages.
* `Call.lift`: a call to a cursor whose service keeps a record.

## Main results

* `Abreast.load`: loading a page keeps up with the dialogue.
* `Paged.next_of_eq_none`: a call that has not come back yet stands between two pages.
* `Paged.keeps_discipline`: what holds after any calls, and while one is under way.
-/

namespace QueryResults.Cursor.Paged

open Service (Page PageRequest Ticket Event Due Orderly inFlight)

variable {σ : Type} {service : Service (World σ)} {c c' : Paged} {events : List Event}
  {w w' : World ((σ × List Event) × List Page)} {p : Pending}

/-- How a cursor stands to the dialogue so far. -/
inductive Stands (events : List Event) (c : Paged) : Prop
  /-- Nothing was asked yet. -/
  | fresh (hevents : events = []) (hstarted : c.started = false) (hpending : c.pending = none)
      (htoken : c.nextToken = none)
  /-- The request under way is the one in flight. -/
  | waiting (p : Pending) (r : PageRequest) (hflight : inFlight events = [(r, p.ticket)])
      (hsome : c.started = true → r.token.isSome) (hpending : c.pending = some p)
      (hp : p.token = r.token) (htoken : c.nextToken = none)
  /-- A page has come, and its token is kept. -/
  | received (init : List Event) (r : PageRequest) (ticket : Ticket) (page : Page)
      (hevents : events = init ++ [.waited ticket (some (.ok page))])
      (hflight : inFlight init = [(r, ticket)]) (hstarted : c.started = true)
      (hpending : c.pending = none) (htoken : c.nextToken = page.next)
  /-- A request has failed, and its token is taken back. -/
  | refused (init : List Event) (r : PageRequest) (ticket : Ticket) (e : Failure)
      (hevents : events = init ++ [.waited ticket (some (.error e))])
      (hflight : inFlight init = [(r, ticket)]) (hsome : c.started = true → r.token.isSome)
      (hpending : c.pending = none) (htoken : c.nextToken = r.token)

/-- A cursor that is abreast of an orderly dialogue. -/
structure Abreast (events : List Event) (c : Paged) : Prop where
  orderly : Orderly events
  stands : Stands events c

namespace Abreast

theorem ofHandle (handle : Handle) (trigger : Trigger) (interrupt : Token) (timeout : Duration) :
    Abreast [] { ofHandle handle trigger interrupt with timeout } :=
  ⟨.nil, .fresh rfl rfl rfl rfl⟩

/-- Only where a cursor keeps tokens and requests matters. -/
theorem congr (h : Abreast events c) (hstarted : c'.started = c.started)
    (hpending : c'.pending = c.pending) (htoken : c'.nextToken = c.nextToken) :
    Abreast events c' := by
  refine ⟨h.orderly, ?_⟩
  cases h.stands with
  | fresh he hs hp ht => exact .fresh he (hstarted.trans hs) (hpending.trans hp) (htoken.trans ht)
  | waiting p r hf hsome hp hr ht =>
    exact .waiting p r hf (hstarted ▸ hsome) (hpending.trans hp) hr (htoken.trans ht)
  | received init r ticket page he hf hs hp ht =>
    exact .received init r ticket page he hf (hstarted.trans hs) (hpending.trans hp)
      (htoken.trans ht)
  | refused init r ticket e he hf hsome hp ht =>
    exact .refused init r ticket e he hf (hstarted ▸ hsome) (hpending.trans hp) (htoken.trans ht)

/-- A cursor without a request under way asks for what is due, if it asks at all. -/
theorem ask (h : Abreast events c) (hpending : c.pending = none)
    (hsome : c.started = true → c.nextToken.isSome) {r : PageRequest} (hr : r.token = c.nextToken)
    (ticket : Ticket) :
    Abreast (events ++ [.asked r ticket])
      { c with pending := some ⟨c.nextToken, ticket⟩, nextToken := none } := by
  have due (hflight : inFlight events = []) (hasks : Service.Asks events r) :
      Abreast (events ++ [.asked r ticket])
        { c with pending := some ⟨c.nextToken, ticket⟩, nextToken := none } :=
    ⟨h.orderly.concat ⟨hflight, hasks⟩,
      .waiting ⟨c.nextToken, ticket⟩ r (by simp [Event.inFlight, hflight]) (hr ▸ hsome) rfl
        hr.symm rfl⟩
  cases h.stands with
  | fresh he hs hp ht => exact due (he ▸ rfl) (.first he (hr.trans ht))
  | waiting p r hf _ hp => cases hpending.symm.trans hp
  | received init r ticket page he hf hs hp ht =>
    exact due (he ▸ Service.inFlight_answered hf _) (.next init ticket page he (hr.trans ht)
      (ht ▸ hsome hs))
  | refused init r ticket e he hf _ hp ht =>
    exact due (he ▸ Service.inFlight_answered hf _) (.again init r ticket e he hf (hr.trans ht))

/-- The request to wait for is the one in flight. -/
theorem demand (h : Abreast w.events c)
    (hd : c.demand service.recorded.logged w = some (p, c', w')) :
    Abreast w'.events { c' with pending := some p } := by
  unfold Paged.demand at hd
  split at hd
  · rename_i hp
    cases hd
    exact h.congr rfl hp.symm rfl
  · rename_i hp
    split at hd
    · cases hd
    · rename_i hmore
      cases hd
      refine h.ask hp (fun hs => ?_) rfl _
      simpa [hs, Option.isSome_iff_ne_none] using hmore

/-- An answer to the request under way, or none, keeps the dialogue orderly. -/
theorem orderly_waited (h : Abreast events { c with pending := some p })
    (answer : Option (Except Failure Page)) :
    ∃ r, inFlight events = [(r, p.ticket)] ∧ (c.started = true → r.token.isSome) ∧
      p.token = r.token ∧ c.nextToken = none ∧ Orderly (events ++ [.waited p.ticket answer]) := by
  cases h.stands with
  | waiting p' r hf hsome hp hr ht =>
    cases hp
    exact ⟨r, hf, hsome, hr, ht, h.orderly.concat ⟨r, hf⟩⟩
  | fresh he hs hp => cases hp
  | received init r ticket page he hf hs hp => cases hp
  | refused init r ticket e he hf hsome hp => cases hp

/-- A wait that fails leaves the request in flight or takes its token back; one that succeeds leaves
the cursor to take the page over. -/
theorem await {r : Except Failure Page} (h : Abreast w.events { c with pending := some p })
    (ha : c.await service.recorded.logged p w = (r, c', w')) :
    match r with
    | .ok page => Abreast w'.events (c'.absorb page)
    | .error _ => Abreast w'.events c' := by
  unfold Paged.await at ha
  split at ha
  · cases ha
    exact h
  · have hevents := Service.events_receive service w p.ticket
    obtain ⟨r₀, hflight, hsome, htoken, hnext, horderly⟩ :=
      h.orderly_waited (service.recorded.logged.receive p.ticket w).1
    rw [← hevents] at horderly
    split at ha
    · rename_i page w₁ hr
      rw [hr] at hevents horderly
      cases ha
      exact ⟨horderly, .received w.events r₀ p.ticket page hevents hflight rfl rfl rfl⟩
    · rename_i e w₁ hr
      rw [hr] at hevents horderly
      cases ha
      exact ⟨horderly, .refused w.events r₀ p.ticket e hevents hflight hsome rfl htoken⟩
    · rename_i w₁ hr
      rw [hr] at hevents horderly
      cases ha
      refine ⟨horderly, .waiting p r₀ ?_ hsome rfl htoken hnext⟩
      rw [hevents, Service.inFlight_concat]
      exact hflight

/-- What is requested ahead is due. -/
theorem prefetch (h : Abreast w.events c) :
    Abreast (c.prefetch service.recorded.logged w).2.events
      (c.prefetch service.recorded.logged w).1 := by
  unfold Paged.prefetch
  split
  · rename_i token ht hp hn
    have := h.ask hp (fun _ => by simp [hn])
      (r := { handle := c.handle, token := some token, maxRows := c.pageSize }) hn.symm
      (c.request service.recorded.logged (some token) w).1.ticket
    rw [hn] at this
    exact this
  · exact h

/-- Loading a page keeps up with the dialogue. -/
theorem load (service : Service (World σ)) (h : Abreast w.events c) :
    Abreast (c.load service.recorded.logged w).2.2.events
      (c.load service.recorded.logged w).2.1 := by
  unfold Paged.load
  split
  · exact h
  · rename_i p c₁ w₁ hd
    have hdemand := h.demand hd
    split
    · rename_i e c₂ w₂ ha
      exact hdemand.await ha
    · rename_i page c₂ w₂ ha
      exact (hdemand.await ha).prefetch

/-- Asking for the columns keeps up with the dialogue. -/
theorem metadata (h : Abreast w.events c) :
    Abreast (c.metadata service.recorded.logged w).2.2.events
      (c.metadata service.recorded.logged w).2.1 := by
  have hload := h.load service
  unfold Paged.metadata
  split
  · exact h
  · split <;> rename_i hl <;> rw [hl] at hload <;> exact hload

/-- Going on to the next row keeps up with the dialogue. -/
theorem next {r : Except Failure Bool} {bound : Nat} (h : Abreast w.events c)
    (hn : c.next service.recorded.logged bound w = some (r, c', w')) : Abreast w'.events c' := by
  fun_induction Paged.next service.recorded.logged bound c w with
  | case1 bound c w ha =>
    cases hn
    exact h
  | case2 bound c w ha row rows hrows =>
    cases hn
    exact h.congr rfl rfl rfl
  | case3 c w ha hrows => cases hn
  | case4 c w ha hrows bound e c₁ w₁ hl =>
    cases hn
    have := h.load service
    rwa [hl] at this
  | case5 c w ha hrows bound c₁ w₁ hl =>
    cases hn
    have := h.load service
    rw [hl] at this
    exact this.congr rfl rfl rfl
  | case6 c w ha hrows bound c₁ w₁ hl ih =>
    have := h.load service
    rw [hl] at this
    exact ih this hn

end Abreast

/-! ### Calls under way -/

/-- A cursor after a number of pages, and the world around it. -/
def loads (service : Service (World σ)) : Nat → Paged → World σ → Paged × World σ
  | 0, c, w => (c, w)
  | n + 1, c, w => loads service n (c.load service w).2.1 (c.load service w).2.2

theorem Abreast.loads (h : Abreast w.events c) (n : Nat) :
    Abreast (c.loads service.recorded.logged n w).2.events
      (c.loads service.recorded.logged n w).1 := by
  induction n generalizing c w with
  | zero => exact h
  | succ n ih => exact ih (h.load service)

/-- A call for the next row that has not come back after some pages stands behind them, and goes on
from there. -/
theorem next_of_eq_none {service : Service (World σ)} {bound : Nat} {c : Paged} {w : World σ}
    (h : c.next service bound w = none) (more : Nat) :
    c.next service (bound + more) w =
      (c.loads service bound w).1.next service more (c.loads service bound w).2 := by
  fun_induction Paged.next service bound c w with
  | case1 bound c w ha => cases h
  | case2 bound c w ha row rows hrows => cases h
  | case3 c w ha hrows => rw [Nat.zero_add, Paged.loads]
  | case4 c w ha hrows bound e c₁ w₁ hl => cases h
  | case5 c w ha hrows bound c₁ w₁ hl => cases h
  | case6 c w ha hrows bound c₁ w₁ hl ih =>
    rw [Nat.succ_add, Paged.next, if_neg ha, hrows]
    simp only [hl, Paged.loads]
    exact ih h

/-! ### Calls -/

/-- A call to a cursor whose service keeps a record. What happens meanwhile leaves the record
alone. -/
def Call.lift : Call σ → Call (σ × List Event)
  | .metadata => .metadata
  | .next bound => .next bound
  | .setPageSize n => .setPageSize n
  | .setInterrupt t => .setInterrupt t
  | .clearInterrupt => .clearInterrupt
  | .meanwhile f => .meanwhile fun w => (World.inner (fun v => ((), f v)) w).2

/-- Every call keeps up with the dialogue. -/
theorem Abreast.call {j j' : Journal (σ × List Event)} {a : Call σ}
    (h : Abreast j.world.events j.cursor) (ha : j.call service.recorded a.lift = some j') :
    Abreast j'.world.events j'.cursor := by
  cases a with
  | metadata =>
    cases ha
    exact h.metadata
  | next bound =>
    obtain ⟨⟨r, c, w⟩, hn, rfl⟩ := Option.map_eq_some_iff.1 ha
    exact h.next hn
  | setPageSize n =>
    rcases Journal.eq_of_setPageSize ha with rfl | rfl
    · exact h
    · exact h.congr rfl rfl rfl
  | setInterrupt t =>
    cases ha
    exact h.congr rfl rfl rfl
  | clearInterrupt =>
    cases ha
    exact h.congr rfl rfl rfl
  | meanwhile f =>
    cases ha
    exact h

theorem Abreast.run {j j' : Journal (σ × List Event)} {calls : List (Call σ)}
    (h : Abreast j.world.events j.cursor)
    (hrun : j.run service.recorded (calls.map Call.lift) = some j') :
    Abreast j'.world.events j'.cursor := by
  refine Journal.run_induction (P := fun j => Abreast j.world.events j.cursor) ?_ h hrun
  intro a ha j j' hj hcall
  obtain ⟨a, -, rfl⟩ := List.mem_map.1 ha
  exact hj.call hcall

/-- What holds of a cursor and of the dialogue that it has had with its service. -/
structure Disciplined (events : List Event) (c : Paged) : Prop where
  /-- Every request was due: it was the first and had no token, or it had the token of the page just
  received, or that of the request that had just failed. Every wait was for the request in
  flight. -/
  orderly : Orderly events
  /-- At most one request was in flight at any time. -/
  single : ∀ before, before <+: events → (inFlight before).length ≤ 1
  /-- The request in flight is the one under way. -/
  pending : (inFlight events).map (fun x => (x.1.token, x.2)) =
    c.pending.toList.map fun p => (p.token, p.ticket)
  /-- A page that names no other was the end of the dialogue. -/
  last : ∀ before ticket page after,
    events = before ++ .waited ticket (some (.ok page)) :: after → page.next = none → after = []
  /-- Nothing but such a page keeps the cursor from waiting for another. -/
  exhausted : c.IsExhausted ↔ ∃ init ticket page,
    events = init ++ [.waited ticket (some (.ok page))] ∧ page.next = none
  /-- A token is kept only while no request is under way. -/
  apart : c.pending.isSome → c.nextToken = none

/-- A cursor has nothing more to ask for exactly behind a page that names no other. -/
theorem Abreast.isExhausted_iff (h : Abreast events c) :
    c.IsExhausted ↔ ∃ init ticket page,
      events = init ++ [.waited ticket (some (.ok page))] ∧ page.next = none := by
  constructor
  · rintro ⟨hstarted, hpending, htoken⟩
    cases h.stands with
    | fresh he hs => cases hstarted.symm.trans hs
    | waiting p r hf _ hp => cases hpending.symm.trans hp
    | received init r ticket page he hf hs hp ht =>
      exact ⟨init, ticket, page, he, ht.symm.trans htoken⟩
    | refused init r ticket e he hf hsome hp ht =>
      have := hsome hstarted
      rw [ht.symm.trans htoken] at this
      cases this
  · rintro ⟨init, ticket, page, rfl, hnone⟩
    obtain ⟨r, hflight⟩ := h.orderly init (.waited ticket (some (.ok page))) List.prefix_rfl
    have hnil := Service.inFlight_answered hflight (.ok page)
    cases h.stands with
    | fresh he => simp at he
    | waiting p r hf => cases hnil.symm.trans hf
    | received init' r' ticket' page' he hf hs hp ht =>
      obtain ⟨-, hpage⟩ := List.append_inj' he rfl
      cases hpage
      exact ⟨hs, hp, ht.trans hnone⟩
    | refused init' r' ticket' e he =>
      obtain ⟨-, hpage⟩ := List.append_inj' he rfl
      cases hpage

theorem Abreast.disciplined (h : Abreast events c) : Disciplined events c where
  orderly := h.orderly
  single before hb := (h.orderly.of_prefix hb).inFlight_length_le
  pending := by
    cases h.stands with
    | fresh he hs hp => simp [he, hp]
    | waiting p r hf _ hp hr => simp [hf, hp, hr]
    | received init r ticket page he hf hs hp => simp [he, Service.inFlight_answered hf, hp]
    | refused init r ticket e he hf _ hp => simp [he, Service.inFlight_answered hf, hp]
  last before ticket page after he hlast := (he ▸ h.orderly).eq_nil_of_last hlast
  exhausted := h.isExhausted_iff
  apart hp := by
    cases h.stands with
    | waiting p r hf _ hp hr ht => exact ht
    | fresh he hs hn => simp [hn] at hp
    | received init r ticket page he hf hs hn => simp [hn] at hp
    | refused init r ticket e he hf _ hn => simp [hn] at hp

/-- With either trigger, whatever the service answers or leaves unanswered and whatever is called,
the cursor and its dialogue are disciplined after all calls, and still are after any number of pages
of a further call that has not come back yet. -/
theorem keeps_discipline (service : Service (World σ)) (handle : Handle) (trigger : Trigger)
    (interrupt : Token) (timeout : Duration) (w : World σ) {calls : List (Call σ)}
    {j : Journal (σ × List Event)}
    (hrun : (Journal.ofHandle handle trigger interrupt timeout w.recording).run service.recorded
      (calls.map Call.lift) = some j) (n : Nat) :
    let now := j.cursor.loads service.recorded.logged n j.world
    Disciplined now.2.events now.1 := by
  have hstart : Abreast (Journal.ofHandle handle trigger interrupt timeout w.recording).world.events
      (Journal.ofHandle handle trigger interrupt timeout w.recording).cursor :=
    .ofHandle handle trigger interrupt timeout
  exact ((hstart.run hrun).loads n).disciplined

/-- The tokens of the requests in a dialogue. -/
def askedTokens (events : List Event) : List (Option String) :=
  events.filterMap fun
    | .asked r _ => some r.token
    | .waited _ _ => none

/-- The journal of the calls that go over all rows of the slow desk, with a record. -/
def slowRecord : Option (Journal (Desk × List Event)) :=
  (Journal.ofHandle "query-1" .eager { number := 1 } .zero
    (World.recording { outside := slowDesk })).run slowService.recorded (slowCalls.map Call.lift)

/-- The second page is requested twice, for its request fails once; the wait that ends without an
answer costs no request. -/
theorem keeps_discipline_slow :
    ∃ j, slowRecord = some j ∧ Disciplined j.world.events j.cursor ∧
      askedTokens j.world.events = [none, some "page-2", some "page-2"] ∧
      j.world.events.length = 7 := by
  have hevents : (slowRecord.map fun j => (askedTokens j.world.events, j.world.events.length)) =
      some ([none, some "page-2", some "page-2"], 7) := by cbv
  obtain ⟨j, hj, he⟩ := Option.map_eq_some_iff.1 hevents
  obtain ⟨htokens, hlength⟩ := Prod.mk.inj he
  exact ⟨j, hj, keeps_discipline slowService _ _ _ _ _ hj 0, htokens, hlength⟩

end QueryResults.Cursor.Paged
