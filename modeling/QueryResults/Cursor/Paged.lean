import QueryResults.Cursor.Basic
import QueryResults.Service.Basic
import QueryResults.World

/-!
# Cursors over pages

The rows of a result are requested from the query service page by page: the next page when the
current one is used up, or as soon as the current one is there. At most one request is under way.
One whose wait was interrupted or timed out stays under way and is waited for again, so a page is
never requested a second time unless its request has failed.

The first row of the first page repeats the labels and is left out. A wait times out exactly when
the service does not answer it.

## Main definitions

* `Cursor.Paged`, `Cursor.Paged.ofHandle`.
* `Paged.metadata`, `Paged.next`, `Paged.position`.
-/

namespace QueryResults.Cursor

/-- When the next page is requested. -/
inductive Paged.Trigger where
  /-- When a row of it is needed. -/
  | onDemand
  /-- As soon as the current page is there. -/
  | eager
  deriving DecidableEq, Repr

/-- A request under way, and the token it was made with. -/
structure Paged.Pending where
  token : Option String
  ticket : Service.Ticket
  deriving DecidableEq, Repr

/-- A cursor over the pages of a result. -/
structure Paged where
  handle : Handle
  trigger : Paged.Trigger
  interrupt : Token
  pageSize : Nat := maxPageSize
  /-- The longest wait for one page. -/
  timeout : Duration := .ofSeconds 10
  schema : Option Schema := none
  /-- The rows of the current page that are still to come. -/
  rows : List Row := []
  current : Option Row := none
  /-- The token of the next page, while it is not yet requested. -/
  nextToken : Option String := none
  /-- Whether the first page has come. -/
  started : Bool := false
  pending : Option Paged.Pending := none
  rowNumber : Nat := 0
  afterLast : Bool := false
  deriving Repr

namespace Paged

/-- A cursor over the result of a query. -/
def ofHandle (handle : Handle) (trigger : Trigger) (interrupt : Token) : Paged :=
  { handle, trigger, interrupt }

variable {σ : Type} (service : Service (World σ))

/-- Sends the request for a page. -/
def request (c : Paged) (token : Option String) (w : World σ) : Pending × World σ :=
  let (ticket, w) := service.request { handle := c.handle, token, maxRows := c.pageSize } w
  ({ token, ticket }, w)

/-- Requests the next page ahead, if that is due. -/
def prefetch (c : Paged) (w : World σ) : Paged × World σ :=
  match c.trigger, c.pending, c.nextToken with
  | .eager, none, some token =>
    let (pending, w) := c.request service (some token) w
    ({ c with nextToken := none, pending := some pending }, w)
  | _, _, _ => (c, w)

/-- Takes a page over. -/
def absorb (c : Paged) (page : Service.Page) : Paged :=
  { c with
    schema := c.schema <|> some page.columns
    rows := if c.started then page.rows else page.rows.tail
    started := true
    nextToken := page.next }

/-- The failure of a wait that was interrupted. -/
def interruption (c : Paged) : Failure :=
  .interrupted ("Interrupted while fetching results of " ++ c.handle)

/-- The failure of a wait that timed out. -/
def expiry (c : Paged) : Failure :=
  .timeout ("Fetching results of " ++ c.handle ++ " timed out after " ++ c.timeout.text)

/-- Waits for the request under way. Once it has failed, its token is to be requested again. -/
def await (c : Paged) (p : Pending) (w : World σ) :
    Except Failure Service.Page × Paged × World σ :=
  let waiting := { c with pending := some p }
  let done := { c with pending := none }
  if w.isCancelled c.interrupt then (.error c.interruption, waiting, w)
  else
    match service.receive p.ticket w with
    | (some (.ok page), w) => (.ok page, done, w)
    | (some (.error e), w) =>
      (.error (e.inContext ("Failed to fetch results of " ++ c.handle ++ ": " ++ e.message)),
        { done with nextToken := p.token }, w)
    | (none, w) =>
      (.error (if w.isCancelled c.interrupt then c.interruption else c.expiry), waiting, w)

/-- The request to wait for: the one under way, or a new one if there is a page to ask for. -/
def demand (c : Paged) (w : World σ) : Option (Pending × Paged × World σ) :=
  match c.pending with
  | some p => some (p, c, w)
  | none =>
    if c.started && c.nextToken.isNone then none
    else
      let (p, w) := c.request service c.nextToken w
      some (p, { c with nextToken := none }, w)

/-- Loads the next page. There is none after the last. -/
def load (c : Paged) (w : World σ) : Except Failure Bool × Paged × World σ :=
  match c.demand service w with
  | none => (.ok false, c, w)
  | some (p, c, w) =>
    match c.await service p w with
    | (.error e, c, w) => (.error e, c, w)
    | (.ok page, c, w) =>
      let (c, w) := (c.absorb page).prefetch service w
      (.ok true, c, w)

/-- The columns of the result. -/
def metadata (c : Paged) (w : World σ) : Except Failure Schema × Paged × World σ :=
  match c.schema with
  | some columns => (.ok columns, c, w)
  | none =>
    match c.load service w with
    | (.error e, c, w) => (.error e, c, w)
    | (.ok _, c, w) =>
      (match c.schema with
        | some columns => .ok columns
        | none => .error (.invalidState ("No column metadata returned for " ++ c.handle)), c, w)

/-- Goes on to a row of the current page. -/
def advance (c : Paged) (row : Row) (rows : List Row) : Paged :=
  { c with current := some row, rows, rowNumber := c.rowNumber + 1 }

/-- Goes past the last row. -/
def finish (c : Paged) : Paged := { c with current := none, afterLast := true }

/-- Goes on to the next row. There is none after the last. At most `pages` pages without a row are
loaded on the way; if they do not suffice, there is no answer. -/
def next (pages : Nat) (c : Paged) (w : World σ) : Option (Except Failure Bool × Paged × World σ) :=
  if c.afterLast then some (.ok false, c, w)
  else
    match c.rows with
    | row :: rows => some (.ok true, c.advance row rows, w)
    | [] =>
      match pages with
      | 0 => none
      | pages + 1 =>
        match c.load service w with
        | (.error e, c, w) => some (.error e, c, w)
        | (.ok false, c, w) => some (.ok false, c.finish, w)
        | (.ok true, c, w) => next pages c w

/-- Whether there is nothing after the current row, as far as is known. With pages requested ahead
this is already known of every row of the last page. -/
def isLast (c : Paged) : Bool :=
  c.started && c.nextToken.isNone && c.pending.isNone &&
    match c.trigger with
    | .onDemand => c.rows.isEmpty
    | .eager => true

/-- Where the cursor stands. -/
def position (c : Paged) : Position := .of c.rowNumber c.afterLast c.isLast

/-- Puts a new token in place of a cancelled one. -/
def clearInterrupt (c : Paged) (w : World σ) : Paged × World σ :=
  let (interrupt, w) := w.token (·.renew c.interrupt)
  ({ c with interrupt }, w)

/-- Changes the number of rows requested per page. -/
def setPageSize (c : Paged) (n : Nat) : Except Failure Paged :=
  (checkPageSize n).map fun _ => { c with pageSize := n }

/-- Gives up the request under way, if there is one. -/
def close (c : Paged) (w : World σ) : World σ :=
  match c.pending with
  | some p => service.abandon p.ticket w
  | none => w

end Paged

end QueryResults.Cursor
