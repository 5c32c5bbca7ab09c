import QueryResults.Csv.Dialect
import QueryResults.Feed

/-!
# Reading rows

A `Csv.Reader` pulls rows with a fixed number of fields out of a feed of bytes. A quoted text is
taken piece by piece, everything else byte by byte. The reader looks at most one byte ahead and asks
the feed for a piece only when it has to see a byte that is not there yet. After a malformed row it
can be asked again and goes on from the byte at which it stopped.

## Main definitions

* `Csv.Reader`, `Csv.Reader.ofPieces`.
* `Csv.Reader.nextRow`: the next row, nothing at the end of the input, or what is wrong.
-/

namespace QueryResults.Csv

open Input (smaller_wf skip_smaller_of_peek)

variable {ρ : Type} (feed : Feed ρ)

/-- Reads the body of a quoted field whose opening quote is consumed, and the closing quote: all
bytes at hand up to a quote, or all of them where there is none. A quote closes the field unless
another follows it, which may be the first byte of another piece. `before` holds the texts read so
far, the last one first. -/
def readQuoted (row : Nat) (before : List (List UInt8)) (i : Input ρ) :
    Except ReadError (List UInt8) × Input ρ :=
  match _h : Input.peek feed i with
  | (.error f, i') => (.error (.source f), i')
  | (.ok none, i') => (.error (.malformed (.unterminated row)), i')
  | (.ok (some _), i') =>
    match i'.ready.idxOf? quote with
    | none => readQuoted row (i'.ready :: before) (i'.consume i'.ready.length)
    | some n =>
      let before := i'.ready.take n :: before
      match _h' : Input.peek feed (i'.consume (n + 1)) with
      | (.error f, i'') => (.error (.source f), i'')
      | (.ok none, i'') => (.ok before.reverse.flatten, i'')
      | (.ok (some b), i'') =>
        if b = quote then readQuoted row ([quote] :: before) i''.skip
        else (.ok before.reverse.flatten, i'')
termination_by (smaller_wf feed).transGen.wrap i
decreasing_by
  · obtain ⟨more, hready⟩ := Input.ready_of_peek feed _h
    exact .single (Input.consume_smaller_of_peek feed (by simp [hready]) _h)
  · exact .tail (.single (skip_smaller_of_peek feed _h'))
      (Input.consume_smaller_of_peek feed (Nat.succ_pos n) _h)

/-- Reads one field, without what follows it. -/
def readField (row : Nat) (i : Input ρ) : Except ReadError (Option String) × Input ρ :=
  match Input.peek feed i with
  | (.error f, i') => (.error (.source f), i')
  | (.ok none, i') => (.ok none, i')
  | (.ok (some b), i') =>
    if b = quote then
      match readQuoted feed row [] i'.skip with
      | (.error e, i'') => (.error e, i'')
      | (.ok bytes, i'') =>
        match Utf8.decode bytes with
        | .ok text => (.ok (some (.ofList text)), i'')
        | .error fault => (.error (.malformed (.notUtf8 row fault)), i'')
    else (.ok none, i')

/-- Consumes the byte that must follow the field numbered `field`: a newline after the last field, a
comma after any other. A byte that does not belong there is left in place. -/
def expectAfter (row field columns : Nat) (i : Input ρ) : Except ReadError Unit × Input ρ :=
  match Input.peek feed i with
  | (.error f, i') => (.error (.source f), i')
  | (.ok none, i') => (.error (.malformed (.ended row field columns)), i')
  | (.ok (some b), i') =>
    if b = (if field = columns then newline else comma) then (.ok (), i'.skip)
    else (.error (.malformed (.unexpectedByte row b field columns)), i')

/-- Reads the last `left` of the row's `columns` fields, with what follows each. -/
def readFields (row columns : Nat) : Nat → Input ρ → Except ReadError Row × Input ρ
  | 0, i => (.ok [], i)
  | left + 1, i =>
    match readField feed row i with
    | (.error e, i) => (.error e, i)
    | (.ok value, i) =>
      match expectAfter feed row (columns - left) columns i with
      | (.error e, i) => (.error e, i)
      | (.ok (), i) =>
        match readFields row columns left i with
        | (.error e, i) => (.error e, i)
        | (.ok values, i) => (.ok (value :: values), i)

/-- A reader of rows: the number of fields of every row, the number of rows read, and the input. -/
structure Reader (ρ : Type) where
  columns : Nat
  rowsRead : Nat := 0
  input : Input ρ
  deriving Repr

/-- The same reader over another state of its feed. -/
def Reader.mapRest {τ : Type} (f : ρ → τ) (r : Reader ρ) : Reader τ :=
  { columns := r.columns
    rowsRead := r.rowsRead
    input := { ready := r.input.ready, rest := f r.input.rest } }

/-- A reader of the bytes that a list of pieces holds. -/
def Reader.ofPieces (columns : Nat) (pieces : List (List UInt8)) :
    Reader (List (List UInt8)) :=
  { columns, input := ⟨[], pieces⟩ }

/-- The next row, or nothing if the input ends before a row. A reader for rows without fields never
reads one. -/
def Reader.nextRow (r : Reader ρ) : Except ReadError (Option Row) × Reader ρ :=
  if r.columns = 0 then (.ok none, r)
  else
    match Input.peek feed r.input with
    | (.error f, i) => (.error (.source f), { r with input := i })
    | (.ok none, i) => (.ok none, { r with input := i })
    | (.ok (some _), i) =>
      match readFields feed (r.rowsRead + 1) r.columns r.columns i with
      | (.error e, i) => (.error e, { r with input := i })
      | (.ok row, i) => (.ok (some row), { r with input := i, rowsRead := r.rowsRead + 1 })

end QueryResults.Csv
