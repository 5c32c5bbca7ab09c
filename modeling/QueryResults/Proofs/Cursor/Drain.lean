import Mathlib
import QueryResults.Cursor

/-!
# Draining cursors

Whoever drains a cursor asks for its columns and goes on to the next row, in any order and as often
as wanted. What is *seen* of the cursor is the answer to each call, and after each step the values
of the current row, the row number and the position.

What is to be *shown* of a table does not depend on how the table is kept: its columns, its rows one
after the other, the last one known as such, and then the end again and again. A kind of cursor
shows a table if some relation between its states and the rows still to come is kept by every call
(`Shows.seen_eq`).

## Main definitions

* `Cursor.Use`, `Cursor.Seen`, `Cursor.seen`: what is seen of a cursor.
* `Cursor.shown`: what is to be shown of a table.
* `Cursor.Shows`: a relation that is kept while a table is shown.

## Main results

* `Cursor.Shows.seen_eq`: what is seen is what is to be shown.
-/

namespace QueryResults.Cursor

variable {σ : Type}

/-- What is done with a cursor that is drained. -/
inductive Use where
  | metadata
  | next

/-- What is seen of a cursor by one call. -/
inductive Seen where
  | columns (r : Except Failure Schema)
  /-- The answer to the call for the next row; then the values of the current row, the row number
  and the position. -/
  | moved (r : Except Failure Bool) (values : Nat → Except Failure (Option String))
    (rowNumber : Nat) (position : Position)

variable (connections : Connections σ) (pages : Nat)

/-- One call of a cursor, and what is seen of it. -/
def use (c : Cursor) (w : World σ) : Use → Option (Seen × Cursor × World σ)
  | .metadata =>
    let (r, c, w) := c.metadata connections w
    some (.columns r, c, w)
  | .next =>
    (c.next connections pages w).map fun (r, c, w) =>
      (.moved r c.value c.rowNumber c.position, c, w)

/-- What is seen of a cursor by calls in any order. Nothing if one of them does not come back. -/
def seen : List Use → Cursor → World σ → Option (List Seen)
  | [], _, _ => some []
  | u :: uses, c, w =>
    (c.use connections pages w u).bind fun (x, c, w) => (seen uses c w).map (x :: ·)

/-- What is to be shown of a table of which `n` rows were shown and the rows `todo` are to come. -/
def shown (schema : Schema) : Nat → List Row → List Use → List Seen
  | _, _, [] => []
  | n, todo, .metadata :: uses => .columns (.ok schema) :: shown schema n todo uses
  | n, [], .next :: uses =>
    .moved (.ok false) (currentValue none) n .afterLast :: shown schema n [] uses
  | n, row :: todo, .next :: uses =>
    .moved (.ok true) (currentValue (some row)) (n + 1) (.of (n + 1) false todo.isEmpty) ::
      shown schema (n + 1) todo uses

/-- A relation between cursors and the rows still to come that every call keeps while it shows what
is to be shown. -/
structure Shows (schema : Schema) (Rel : Nat → List Row → Cursor → World σ → Prop) : Prop where
  metadata : ∀ {n todo c w}, Rel n todo c w →
    ∃ c' w', c.metadata connections w = (.ok schema, c', w') ∧ Rel n todo c' w'
  row : ∀ {n row todo c w}, Rel n (row :: todo) c w →
    ∃ c' w', c.next connections pages w = some (.ok true, c', w') ∧ c'.current = some row ∧
      c'.rowNumber = n + 1 ∧ c'.position = .of (n + 1) false todo.isEmpty ∧ Rel (n + 1) todo c' w'
  past : ∀ {n c w}, Rel n [] c w →
    ∃ c' w', c.next connections pages w = some (.ok false, c', w') ∧ c'.current = none ∧
      c'.rowNumber = n ∧ c'.position = .afterLast ∧ Rel n [] c' w'

variable {connections pages} {schema : Schema} {Rel : Nat → List Row → Cursor → World σ → Prop}

/-- What is seen of a cursor that shows a table is what is to be shown of it. -/
theorem Shows.seen_eq (h : Shows connections pages schema Rel) {n : Nat} {todo : List Row}
    {c : Cursor} {w : World σ} (hc : Rel n todo c w) (uses : List Use) :
    c.seen connections pages uses w = some (shown schema n todo uses) := by
  induction uses generalizing n todo c w with
  | nil => rw [seen, shown]
  | cons u uses ih =>
    cases u with
    | metadata =>
      obtain ⟨c', w', hm, hc'⟩ := h.metadata hc
      rw [seen, use, hm, shown]
      simp only [Option.bind_some, ih hc', Option.map_some]
    | next =>
      cases todo with
      | nil =>
        obtain ⟨c', w', hn, hcur, hnum, hpos, hc'⟩ := h.past hc
        have hvalues : c'.value = currentValue none := by
          funext i
          rw [value, hcur]
        rw [seen, use, hn, shown]
        simp only [Option.map_some, Option.bind_some, hvalues, hnum, hpos, ih hc']
      | cons row todo =>
        obtain ⟨c', w', hn, hcur, hnum, hpos, hc'⟩ := h.row hc
        have hvalues : c'.value = currentValue (some row) := by
          funext i
          rw [value, hcur]
        rw [seen, use, hn, shown]
        simp only [Option.map_some, Option.bind_some, hvalues, hnum, hpos, ih hc']

end QueryResults.Cursor
