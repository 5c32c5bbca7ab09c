import QueryResults.Column
import QueryResults.Execution

/-!
# The query service

A query service runs submitted queries and keeps their results in pages. Submitting, asking for a
status and stopping are answered at once. A page is requested first and waited for afterwards: the
request goes out, is known by its ticket, and stays under way through any number of waits until one
of them finds the page there.

## Main definitions

* `Service`, `Service.PageRequest`, `Service.Page`, `Service.Ticket`.
-/

namespace QueryResults

/-- A request for a page of a result. The first page has no token. -/
structure Service.PageRequest where
  handle : Handle
  token : Option String
  maxRows : Nat
  deriving DecidableEq, Repr

/-- A page of a result. The first row of the first page repeats the labels of the columns. -/
structure Service.Page where
  columns : Schema
  rows : List Row
  /-- The token of the next page, if there is one. -/
  next : Option String
  deriving DecidableEq, Repr

/-- What a request for a page is known by while it is under way. -/
abbrev Service.Ticket := Nat

/-- A query service with states in `σ`. -/
structure Service (σ : Type) where
  submit : Submission → σ → Except Failure Handle × σ
  status : Handle → σ → Except Failure Execution.Status × σ
  stop : Handle → σ → Except Failure Unit × σ
  /-- Sends a request for a page. -/
  request : Service.PageRequest → σ → Service.Ticket × σ
  /-- Waits for the answer to a request; there is none if the wait ends before it comes. -/
  receive : Service.Ticket → σ → Option (Except Failure Service.Page) × σ
  /-- Gives a request up. -/
  abandon : Service.Ticket → σ → σ

end QueryResults
