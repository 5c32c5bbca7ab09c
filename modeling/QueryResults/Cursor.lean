import QueryResults.Cursor.Paged
import QueryResults.Cursor.Streamed

/-!
# Cursors

A cursor over the result of a query, of one kind or the other, behind one interface. Which kind it
is follows from the settings; opening one asks nothing of the services.

## Main definitions

* `Connections`: the services that cursors use.
* `Cursor`, `Cursor.ofStatus`.
* `Cursor.metadata`, `Cursor.next`, `Cursor.value`, `Cursor.position`.
-/

namespace QueryResults

/-- The services that are at hand. An object store may be missing. -/
structure Connections (σ : Type) where
  service : Service (World σ)
  store : Option (Store (World σ)) := none

/-- A store that never answers. -/
def Store.silent {σ : Type} : Store σ where get _ s := (.silence, s)

/-- The object store, or one that never answers. -/
def Connections.objects {σ : Type} (c : Connections σ) : Store (World σ) := c.store.getD .silent

/-- A cursor over the result of a query. -/
inductive Cursor where
  | paged (c : Cursor.Paged)
  | streamed (c : Cursor.Streamed)
  deriving Repr

namespace Cursor

/-- A cursor over pages, under given settings. -/
def ofPages (reading : Settings.Reading) (trigger : Paged.Trigger) (handle : Handle)
    (token : Token) : Except Failure Cursor :=
  let c := { Paged.ofHandle handle trigger token with timeout := reading.pageTimeout }
  (c.setPageSize reading.pageSize).map paged

/-- A cursor over the result file of a query. -/
def ofFile (download : Settings.Download) (hasStore : Bool) (status : Execution.Status)
    (token : Token) : Except Failure Cursor :=
  if hasStore then
    match status.output with
    | some uri => (Streamed.ofUri uri download token).map streamed
    | none => .error (.invalidState ("Query " ++ status.handle ++ " reported no output location"))
  else .error (.invalidState "Object store backend selected but no object store configured")

/-- A cursor over the result of a query that has succeeded. `token` interrupts it. -/
def ofStatus (reading : Settings.Reading) (download : Settings.Download) (hasStore : Bool)
    (status : Execution.Status) (token : Token) : Except Failure Cursor :=
  match status.requireSucceeded with
  | .error e => .error e
  | .ok () =>
    match reading.backend with
    | .paginated => ofPages reading .onDemand status.handle token
    | .prefetching => ofPages reading .eager status.handle token
    | .objectStore => ofFile download hasStore status token

variable {σ : Type} (connections : Connections σ)

/-- The columns of the result. -/
def metadata (c : Cursor) (w : World σ) : Except Failure Schema × Cursor × World σ :=
  match c with
  | paged c =>
    let (columns, c, w) := c.metadata connections.service w
    (columns, paged c, w)
  | streamed c =>
    let (columns, c, w) := c.metadata connections.objects w
    (columns, streamed c, w)

/-- Goes on to the next row. There is none after the last. At most `pages` pages without a row are
loaded on the way; if they do not suffice, there is no answer. -/
def next (pages : Nat) (c : Cursor) (w : World σ) :
    Option (Except Failure Bool × Cursor × World σ) :=
  match c with
  | paged c => (c.next connections.service pages w).map fun (more, c, w) => (more, paged c, w)
  | streamed c =>
    let (more, c, w) := c.next connections.objects w
    some (more, streamed c, w)

/-- The current row. -/
def current : Cursor → Option Row
  | paged c => c.current
  | streamed c => c.current

/-- The value of a column in the current row. -/
def value (c : Cursor) (i : Nat) : Except Failure (Option String) := currentValue c.current i

/-- How many rows were reached. -/
def rowNumber : Cursor → Nat
  | paged c => c.rowNumber
  | streamed c => c.rowNumber

/-- Where the cursor stands. -/
def position : Cursor → Position
  | paged c => c.position
  | streamed c => c.position

/-- The number of rows requested at a time, where there is one. -/
def pageSize? : Cursor → Option Nat
  | paged c => some c.pageSize
  | streamed _ => none

/-- Changes the number of rows requested at a time. -/
def setPageSize (c : Cursor) (n : Nat) : Except Failure Cursor :=
  match c with
  | paged c => (c.setPageSize n).map paged
  | streamed c => (c.setPageSize n).map streamed

/-- The token that interrupts the cursor. -/
def interrupt : Cursor → Token
  | paged c => c.interrupt
  | streamed c => c.interrupt

/-- Puts a new token in place of a cancelled one. -/
def clearInterrupt (c : Cursor) (w : World σ) : Cursor × World σ :=
  match c with
  | paged c =>
    let (c, w) := c.clearInterrupt w
    (paged c, w)
  | streamed c =>
    let (c, w) := c.clearInterrupt w
    (streamed c, w)

/-- Gives up what is under way. -/
def close (c : Cursor) (w : World σ) : World σ :=
  match c with
  | paged c => c.close connections.service w
  | streamed _ => w

end Cursor

end QueryResults
