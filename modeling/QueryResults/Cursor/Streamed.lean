import QueryResults.Csv.Reader
import QueryResults.Cursor.Basic
import QueryResults.Download.Reader.Read
import QueryResults.Sidecar
import QueryResults.World

/-!
# Cursors over a result file

The rows of a result are read straight from its file in the object store. On first use the sidecar
of the file is loaded for the columns; then the file is read row by row, its first row, which
repeats the labels, left out. The cursor is always one row ahead of its caller, so it knows when the
current row is the last.

What goes wrong while the cursor is opened leaves it as it was, and opening is tried again at the
next use. What goes wrong while it reads ahead is reported by the next step, and by every step after
that; a cursor that has failed never gets past the last row. Its token is looked at at the beginning
of every step and all the while the sidecar is loaded. The wait for the sidecar ends at once when
the token is cancelled, and when the whole of it has taken as long as one read may take; within a
file only the read timeout ends a wait.

## Main definitions

* `Cursor.Streamed`, `Cursor.Streamed.ofUri`.
* `Streamed.metadata`, `Streamed.next`, `Streamed.position`.

## Main results

* `Streamed.of_opened_error`: failing to open a cursor leaves it as it was.
-/

namespace QueryResults.Cursor

/-- A cursor over the rows of a result file. -/
structure Streamed where
  location : Location
  settings : Settings.Download
  interrupt : Token
  schema : Option Schema := none
  /-- The rows still to be read, once the cursor is open. -/
  rows : Option (Csv.Reader Download.Reader) := none
  current : Option Row := none
  lookahead : Option Row := none
  /-- What went wrong while reading ahead. -/
  deferred : Option Failure := none
  /-- What every later step reports. -/
  failed : Option Failure := none
  rowNumber : Nat := 0
  afterLast : Bool := false
  deriving Repr

namespace Streamed

/-- A cursor over the file that a query wrote its result to. -/
def ofUri (uri : String) (settings : Settings.Download) (interrupt : Token) :
    Except Failure Streamed :=
  (Location.parse uri).map fun location => { location, settings, interrupt }

/-- How many bytes are asked for at a time. -/
def bufferSize : Nat := 8192

variable {σ : Type} (store : Store (World σ))

/-- Reads the next row of a file. -/
def readRow (rows : Csv.Reader Download.Reader) (w : World σ) :
    Except Failure (Option Row) × Csv.Reader Download.Reader × World σ :=
  let (row, rows) :=
    (rows.mapRest fun reader => (reader, w)).nextRow (Download.Reader.feed store bufferSize)
  (row.mapError Csv.ReadError.toFailure, rows.mapRest Prod.fst, rows.input.rest.2)

/-- Where the columns of a file are described. -/
def sidecar (c : Streamed) : Location := c.location.withKeySuffix Sidecar.keySuffix

/-- Loads the sidecar of the file, within the time of one read and while the token is not
cancelled. -/
def loadSidecar (c : Streamed) (w : World σ) : Except Failure (List UInt8) × World σ :=
  let location := c.sidecar
  let limit := .ofMillis c.settings.readTimeout.ceilMillis
  let (loaded, _, w) := (Download.Fetcher.ofSettings location c.settings).fetchWithin store
    (World.isCancelled · c.interrupt) limit w
  match loaded with
  | .received result => (result, w)
  | .interrupted => (.error (.interrupted s!"Interrupted while loading {location}"), w)
  | .timedOut =>
    let limit := c.settings.readTimeout.text
    (.error (.timeout s!"Loading {location} timed out after {limit}"), w)

/-- Opens the file under the columns of its sidecar: leaves the labels out and reads one row
ahead. -/
def openFile (c : Streamed) (columns : Schema) (w : World σ) :
    Except Failure Unit × Streamed × World σ :=
  let rows : Csv.Reader Download.Reader :=
    { columns := columns.length
      input := ⟨[], .ofLocation c.location c.settings⟩ }
  match readRow store rows w with
  | (.error e, _, w) => (.error e, c, w)
  | (.ok _, rows, w) =>
    match readRow store rows w with
    | (.error e, _, w) => (.error e, c, w)
    | (.ok lookahead, rows, w) =>
      (.ok (), { c with lookahead, schema := some columns, rows := some rows }, w)

/-- Opens the cursor, unless it is open. -/
def opened (c : Streamed) (w : World σ) : Except Failure Unit × Streamed × World σ :=
  match c.schema with
  | some _ => (.ok (), c, w)
  | none =>
    match c.loadSidecar store w with
    | (.error e, w) => (.error e, c, w)
    | (.ok bytes, w) =>
      match Sidecar.parse bytes with
      | .error fault => (.error fault.toFailure, c, w)
      | .ok columns => c.openFile store columns w

/-- Refuses to go on if the token is cancelled. -/
def checkInterrupt (c : Streamed) (w : World σ) : Except Failure Unit :=
  if w.isCancelled c.interrupt then
    let location := c.location
    .error (.interrupted s!"Interrupted while reading {location}")
  else .ok ()

/-- The columns of the result. -/
def metadata (c : Streamed) (w : World σ) : Except Failure Schema × Streamed × World σ :=
  match c.schema with
  | some columns => (.ok columns, c, w)
  | none =>
    match c.checkInterrupt w with
    | .error e => (.error e, c, w)
    | .ok () =>
      match c.opened store w with
      | (.error e, c, w) => (.error e, c, w)
      | (.ok (), c, w) =>
        let location := c.location
        (match c.schema with
          | some columns => .ok columns
          | none => .error (.invalidState s!"No column metadata for {location}"), c, w)

/-- Fails for good. -/
def fail (c : Streamed) (e : Failure) : Streamed :=
  { c with
    current := none
    lookahead := none
    deferred := none
    rows := none
    failed := some e.repeated }

/-- Reads one row ahead. -/
def readAhead (c : Streamed) (w : World σ) : Streamed × World σ :=
  match c.rows with
  | none => (c, w)
  | some rows =>
    match readRow store rows w with
    | (.ok lookahead, rows, w) => ({ c with rows := some rows, lookahead }, w)
    | (.error e, rows, w) => ({ c with rows := some rows, deferred := some e }, w)

/-- Goes on to the row that was read ahead. -/
def advance (c : Streamed) (w : World σ) : Except Failure Bool × Streamed × World σ :=
  match c.deferred, c.lookahead with
  | some e, _ => (.error e, c.fail e, w)
  | none, some row =>
    let (c, w) :=
      { c with current := some row, lookahead := none, rowNumber := c.rowNumber + 1 }.readAhead
        store w
    (.ok true, c, w)
  | none, none => (.ok false, { c with current := none, afterLast := true, rows := none }, w)

/-- Goes on to the next row. There is none after the last. -/
def next (c : Streamed) (w : World σ) : Except Failure Bool × Streamed × World σ :=
  match c.failed with
  | some e => (.error e.repeated, c, w)
  | none =>
    if c.afterLast then (.ok false, c, w)
    else
      match c.checkInterrupt w with
      | .error e => (.error e, c, w)
      | .ok () =>
        match c.opened store w with
        | (.error e, c, w) => (.error e, c, w)
        | (.ok (), c, w) => c.advance store w

/-- Where the cursor stands. -/
def position (c : Streamed) : Position :=
  if c.failed.isSome then .of c.rowNumber false false
  else
    .of c.rowNumber c.afterLast (c.rows.isSome && c.lookahead.isNone && c.deferred.isNone)

/-- Puts a new token in place of a cancelled one. -/
def clearInterrupt (c : Streamed) (w : World σ) : Streamed × World σ :=
  let (interrupt, w) := w.token (·.renew c.interrupt)
  ({ c with interrupt }, w)

/-- A whole file has no pages; a size that could be one is accepted and does not count. -/
def setPageSize (c : Streamed) (n : Nat) : Except Failure Streamed :=
  (checkPageSize n).map fun _ => c

/-! ### What opening leaves behind -/

variable {store} {c c' : Streamed} {w w' : World σ} {e : Failure}

/-- A cursor whose file cannot be opened stays as it is. -/
theorem eq_of_openFile_error {columns : Schema}
    (h : c.openFile store columns w = (.error e, c', w')) : c' = c := by
  unfold openFile at h
  simp only at h
  split at h
  · cases h
    rfl
  · split at h <;> cases h
    rfl

/-- Only a cursor that is not open can fail to be opened, and it stays as it is. -/
theorem of_opened_error (h : c.opened store w = (.error e, c', w')) :
    c' = c ∧ c.schema = none := by
  unfold opened at h
  split at h
  · cases h
  · rename_i hs
    refine ⟨?_, hs⟩
    split at h
    · cases h
      rfl
    · split at h
      · cases h
        rfl
      · exact eq_of_openFile_error h

end Streamed

end QueryResults.Cursor
