import QueryResults.Proofs.Service.Log

/-!
# Dialogues with a service

What passes between a query service and whoever reads a result from it page by page: requests, with
the tickets they are known by, and waits, with the answers they came back with or without one. A
request is in flight from the moment it goes out until a wait for it comes back with an answer.

A dialogue is *orderly* if everything in it is due when it happens. A wait is due for the request in
flight. A request is due when none is in flight: the first request, without a token; after a page,
the one with the token that the page names, if it names any; after a failure, the one with the same
token again. So a wait that ended without an answer is never a reason to ask, and nothing is ever
asked after a page that names no other.

## Main definitions

* `Service.Event`, `Service.inFlight`.
* `Service.Due`, `Service.Orderly`.
* `Service.recorded`, `World.events`: a service with a record of its dialogue, and the record.

## Main results

* `Service.Orderly.inFlight_length_le`: at most one request is in flight.
* `Service.Orderly.eq_nil_of_last`: nothing follows a page that names no other.
-/

namespace QueryResults

open Service (Page PageRequest Ticket)

namespace Service

/-! ### Dialogues -/

/-- A request that went out, or a wait that ended. -/
inductive Event where
  | asked (r : PageRequest) (ticket : Ticket)
  | waited (ticket : Ticket) (answer : Option (Except Failure Page))

/-- The requests in flight after an event. -/
def Event.inFlight (before : List (PageRequest × Ticket)) : Event → List (PageRequest × Ticket)
  | asked r ticket => before ++ [(r, ticket)]
  | waited _ none => before
  | waited ticket (some _) => before.filter fun x => x.2 ≠ ticket

/-- The requests in flight after a dialogue, in the order in which they went out. -/
def inFlight (events : List Event) : List (PageRequest × Ticket) :=
  events.foldl Event.inFlight []

@[simp] theorem inFlight_nil : inFlight [] = [] := rfl

@[simp] theorem inFlight_concat (events : List Event) (x : Event) :
    inFlight (events ++ [x]) = x.inFlight (inFlight events) := by
  simp [inFlight]

/-- An answer to the only request in flight leaves none. -/
theorem inFlight_answered {before : List Event} {r : PageRequest} {ticket : Ticket}
    (h : inFlight before = [(r, ticket)]) (answer : Except Failure Page) :
    inFlight (before ++ [.waited ticket (some answer)]) = [] := by
  simp [h, Event.inFlight]

/-- What may be asked, given all that went before. -/
inductive Asks (before : List Event) (r : PageRequest) : Prop
  /-- For the first page. -/
  | first (hbefore : before = []) (htoken : r.token = none)
  /-- For the page that the one received names. -/
  | next (init : List Event) (ticket : Ticket) (page : Page)
      (hbefore : before = init ++ [.waited ticket (some (.ok page))])
      (htoken : r.token = page.next) (hsome : page.next.isSome)
  /-- Once more for the page whose request has failed. -/
  | again (init : List Event) (failed : PageRequest) (ticket : Ticket) (e : Failure)
      (hbefore : before = init ++ [.waited ticket (some (.error e))])
      (hfailed : inFlight init = [(failed, ticket)]) (htoken : r.token = failed.token)

/-- What is due, given all that went before. -/
def Due (before : List Event) : Event → Prop
  | .asked r _ => inFlight before = [] ∧ Asks before r
  | .waited ticket _ => ∃ r, inFlight before = [(r, ticket)]

/-- A dialogue in which everything is due when it happens. -/
def Orderly (events : List Event) : Prop :=
  ∀ before x, before ++ [x] <+: events → Due before x

namespace Orderly

variable {events : List Event}

theorem nil : Orderly [] := by
  intro before x h
  simp at h

theorem concat (h : Orderly events) {x : Event} (hx : Due events x) : Orderly (events ++ [x]) := by
  intro before y hy
  rcases List.prefix_concat_iff.1 hy with he | hy
  · obtain ⟨rfl, hxy⟩ := List.append_inj' he rfl
    cases hxy
    exact hx
  · exact h before y hy

theorem of_prefix (h : Orderly events) {before : List Event} (hb : before <+: events) :
    Orderly before :=
  fun init x hx => h init x (hx.trans hb)

/-- At most one request is in flight. -/
theorem inFlight_length_le (h : Orderly events) : (inFlight events).length ≤ 1 := by
  induction events using List.reverseRecOn with
  | nil => exact Nat.zero_le 1
  | append_singleton before x ih =>
    have hbefore := ih (h.of_prefix (List.prefix_append before [x]))
    have hx := h before x List.prefix_rfl
    rw [inFlight_concat]
    cases x with
    | asked r ticket => simp [Event.inFlight, hx.1]
    | waited ticket answer =>
      cases answer with
      | none => exact hbefore
      | some answer => exact (List.length_filter_le _ _).trans hbefore

/-- Nothing follows a page that names no other. -/
theorem eq_nil_of_last {before after : List Event} {ticket : Ticket} {page : Page}
    (h : Orderly (before ++ .waited ticket (some (.ok page)) :: after)) (hlast : page.next = none) :
    after = [] := by
  cases after with
  | nil => rfl
  | cons x after =>
    obtain ⟨r, hr⟩ := h before (.waited ticket (some (.ok page))) ⟨x :: after, by simp⟩
    have hx := h (before ++ [.waited ticket (some (.ok page))]) x ⟨after, by simp⟩
    cases x with
    | asked r' ticket' =>
      cases hx.2 with
      | first hbefore => simp at hbefore
      | next init ticket' page' hbefore _ hsome =>
        obtain ⟨-, hpage⟩ := List.append_inj' hbefore rfl
        cases hpage
        simp [hlast] at hsome
      | again init failed ticket' e hbefore =>
        obtain ⟨-, hpage⟩ := List.append_inj' hbefore rfl
        cases hpage
    | waited ticket' answer =>
      obtain ⟨r', hr'⟩ := hx
      rw [inFlight_answered hr] at hr'
      cases hr'

end Orderly

end Service

/-! ### Records -/

variable {σ : Type}

/-- The same world with an empty record. -/
def World.recording (w : World σ) : World (σ × List Service.Event) :=
  { interrupts := w.interrupts, outside := (w.outside, []) }

/-- Adds to the record of a dialogue. -/
def World.record (w : World (σ × List Service.Event)) (x : Service.Event) :
    World (σ × List Service.Event) :=
  { w with outside := (w.outside.1, w.outside.2 ++ [x]) }

/-- The same service with a record of its dialogue, oldest first. -/
def Service.recorded (service : Service (World σ)) : Service (World (σ × List Service.Event)) where
  submit s := World.inner (service.submit s)
  status h := World.inner (service.status h)
  stop h := World.inner (service.stop h)
  request r w :=
    let (ticket, w) := World.inner (service.request r) w
    (ticket, w.record (.asked r ticket))
  receive ticket w :=
    let (answer, w) := World.inner (service.receive ticket) w
    (answer, w.record (.waited ticket answer))
  abandon ticket w := (World.inner (fun v => ((), service.abandon ticket v)) w).2

/-- The record of a dialogue, in a world that keeps the pages received as well. -/
def World.events (w : World ((σ × List Service.Event) × List Page)) : List Service.Event :=
  w.outside.1.2

variable (service : Service (World σ)) (w : World ((σ × List Service.Event) × List Page))

/-- What a wait adds to the record. -/
theorem Service.events_receive (ticket : Ticket) :
    (service.recorded.logged.receive ticket w).2.events =
      w.events ++ [.waited ticket (service.recorded.logged.receive ticket w).1] := rfl

end QueryResults
