import QueryResults.Service.Basic
import QueryResults.World

/-!
# A desk that answers for a service

A query service without queries: what it answers is laid out beforehand. Everything it is asked is
logged. The request for a page numbered `n`, counted over all results, is answered under the fault
planned for it, if there is one; an answer may be held back until it is released, and a request that
interrupts somebody is answered only after the current activity has ended.

## Main definitions

* `Desk`, `Desk.Content`, `Desk.Fault`, `Desk.Report`.
* `Desk.request`, `Desk.receive`, `Desk.release`, `Desk.settle`.
* `Desk.service`: the desk as a query service.
-/

namespace QueryResults

open Service (Page PageRequest Ticket)

/-- What is special about the answer to one request for a page. -/
structure Desk.Fault where
  /-- Whether the request interrupts somebody. -/
  interrupts : Bool := false
  /-- Whether the answer is held back until it is released. -/
  held : Bool := false
  /-- The failure of the request. -/
  refusal : Option Failure := none
  deriving Repr

/-- The pages that are given out. -/
inductive Desk.Content where
  /-- A numbered table of the given size, cut into pages as requested. -/
  | table (size : Nat)
  /-- The given pages, one per request. -/
  | pages (l : List Page)
  deriving Repr

/-- What is answered to a question about a status. -/
structure Desk.Report where
  answer : Except Failure (Execution.State × Option String × Option String)
  /-- Whether the question interrupts somebody. -/
  interrupts : Bool := false

/-- A request for a page that is under way. -/
structure Desk.Call where
  ticket : Ticket
  answer : Except Failure Page
  /-- Whether the current activity has to end first. -/
  late : Bool
  /-- Whether the answer waits to be released. -/
  held : Bool

/-- What a desk answers, what it was asked (the latest first), and the requests under way. -/
structure Desk where
  content : Desk.Content := .pages []
  faults : List Desk.Fault := []
  handle : Handle := "query-1"
  submitFailure : Option Failure := none
  /-- The answers about statuses; the last is repeated. -/
  reports : List Desk.Report := []
  stopFailure : Option Failure := none
  calls : List Desk.Call := []
  /-- How many answers still to be held back are released already. -/
  releases : Nat := 0
  submissions : List Submission := []
  requests : List PageRequest := []
  stopped : List Handle := []
  statusCount : Nat := 0

namespace Desk

/-- A column of which only the name is known. -/
def textColumn (name : String) : Column := { name, label := name, type := "varchar" }

/-- The row numbered `i` of the table; the row numbered zero repeats the labels. -/
def tableRow (i : Nat) : Row :=
  if i = 0 then [some "n", some "label"]
  else [some (toString i), if i % 2 = 1 then some s!"row {i}" else none]

/-- The token of the page that starts with the row numbered `i`. -/
def pageToken (i : Nat) : String := s!"page-{i}"

/-- The row that a token stands for. -/
def tokenRow (token : String) : Nat := ((token.drop 5).toNat?).getD 0

/-- The page of the table that is asked for. -/
def tablePage (size : Nat) (r : PageRequest) : Page :=
  let start := (r.token.map tokenRow).getD 0
  let stop := min (start + r.maxRows) (size + 1)
  { columns := if start = 0 then [textColumn "n", textColumn "label"] else []
    rows := (List.range' start (stop - start)).map tableRow
    next := if stop = size + 1 then none else some (pageToken stop) }

/-- The fault planned for the next request. -/
def nextFault (d : Desk) : Fault := d.faults.head?.getD {}

/-- The answer to the next request. -/
def answer (d : Desk) (r : PageRequest) : Except Failure Page :=
  match d.nextFault.refusal, d.content with
  | some e, _ => .error e
  | none, .table size => .ok (tablePage size r)
  | none, .pages (page :: _) => .ok page
  | none, .pages [] => .error (.io "page script exhausted")

/-- Lets a held answer go if a release is left for it. -/
def enter (d : Desk) (c : Call) : Desk :=
  if c.held ∧ 0 < d.releases then
    { d with releases := d.releases - 1, calls := d.calls ++ [{ c with held := false }] }
  else { d with calls := d.calls ++ [c] }

/-- Logs a request and takes it up. -/
def request (r : PageRequest) (d : Desk) : Ticket × Desk :=
  let fault := d.nextFault
  let call : Call :=
    { ticket := d.requests.length
      answer := d.answer r
      late := fault.interrupts
      held := fault.held }
  let d :=
    { d with
      requests := r :: d.requests
      faults := d.faults.tail
      content :=
        match d.content with
        | .pages l => .pages l.tail
        | content => content }
  (call.ticket, if call.late then { d with calls := d.calls ++ [call] } else d.enter call)

/-- Whether a call can be answered. -/
def Call.isReady (c : Call) : Bool := !c.late && !c.held

/-- Hands an answer out, if it is ready. -/
def receive (ticket : Ticket) (d : Desk) : Option (Except Failure Page) × Desk :=
  match d.calls.find? fun c => c.ticket == ticket && c.isReady with
  | some c => (some c.answer, { d with calls := d.calls.filter fun c => c.ticket != ticket })
  | none => (none, d)

/-- Forgets a request. -/
def abandon (ticket : Ticket) (d : Desk) : Desk :=
  { d with calls := d.calls.filter fun c => c.ticket != ticket }

/-- The calls after the first held one among them was let go; nothing if there is none. -/
def releaseFirst : List Call → Option (List Call)
  | [] => none
  | c :: l =>
    if c.held ∧ c.late = false then some ({ c with held := false } :: l)
    else (releaseFirst l).map (c :: ·)

/-- Lets one held answer go, now or once there is one. -/
def release (d : Desk) : Desk :=
  match releaseFirst d.calls with
  | some calls => { d with calls }
  | none => { d with releases := d.releases + 1 }

/-- Ends the current activity. -/
def settle (d : Desk) : Desk :=
  d.calls.foldl
    (fun d c => if c.late then d.enter { c with late := false }
      else { d with calls := d.calls ++ [c] })
    { d with calls := [] }

/-- The answer to the next question about a status. -/
def nextReport (d : Desk) : Report :=
  d.reports.head?.getD { answer := .ok (.succeeded, none, none) }

/-- Answers a question about a status. -/
def status (handle : Handle) (d : Desk) : Except Failure Execution.Status × Desk :=
  (d.nextReport.answer.map fun (state, reason, output) => { handle, state, reason, output },
    { d with
      reports := if d.reports.length ≤ 1 then d.reports else d.reports.tail
      statusCount := d.statusCount + 1 })

/-- Logs a submission. -/
def submit (s : Submission) (d : Desk) : Except Failure Handle × Desk :=
  (match d.submitFailure with
    | some e => .error e
    | none => .ok d.handle, { d with submissions := s :: d.submissions })

/-- Logs that a query was stopped. -/
def stop (handle : Handle) (d : Desk) : Except Failure Unit × Desk :=
  (match d.stopFailure with
    | some e => .error e
    | none => .ok (), { d with stopped := handle :: d.stopped })

variable {σ : Type}

/-- The desk as a query service, kept in a part of the outside. `interrupt` is what a question that
interrupts somebody does. -/
def service (desk : σ → Desk) (put : Desk → σ → σ) (interrupt : Interrupts → Interrupts) :
    Service (World σ) :=
  let run {α : Type} (interrupts : Bool) (f : Desk → α × Desk) (w : World σ) : α × World σ :=
    let (a, d) := f (desk w.outside)
    (a,
      { interrupts := if interrupts then interrupt w.interrupts else w.interrupts
        outside := put d w.outside })
  { submit := fun s => run false (submit s)
    status := fun h w => run (desk w.outside).nextReport.interrupts (status h) w
    stop := fun h => run false (stop h)
    request := fun r w => run (desk w.outside).nextFault.interrupts (request r) w
    receive := fun t => run false (receive t)
    abandon := fun t w => (run false (fun d => ((), abandon t d)) w).2 }

end Desk

end QueryResults
