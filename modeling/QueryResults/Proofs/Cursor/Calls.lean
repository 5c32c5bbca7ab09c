import Mathlib
import QueryResults.Cursor

/-!
# Calls of a cursor

A cursor is called for its columns and for the next row, to change the page size and to renew its
interrupt. Between the calls it may be given another token, and anything may happen to the
interrupts and to the services. A *run* is any sequence of this, with the answers in the order in
which they came.

What a caller can tell of a cursor between two calls, whatever its kind, is its `Standing`. A call
*leads* from one standing to another if the row number goes up by the rows that the answer stands
for, nothing that was passed comes back, and the columns once known stay.

## Main definitions

* `Cursor.Call`, `Cursor.Answer`, `Cursor.call`.
* `Cursor.Happening`, `Cursor.run`.
* `Cursor.Standing`, `Standing.Leads`.

## Main results

* `Cursor.run_induction`, `Cursor.run_append_eq_bind`, `Cursor.run_append`, `Cursor.run_concat`.
* `Standing.Leads.position_le`: a call never leads to an earlier position.
-/

namespace QueryResults.Cursor

variable {σ : Type}

/-! ### Calls -/

/-- What is asked of a cursor. -/
inductive Call where
  | metadata
  /-- Goes on to the next row, over at most `pages` pages without a row. -/
  | next (pages : Nat)
  | setPageSize (n : Nat)
  | clearInterrupt

/-- What a call answers. -/
inductive Answer where
  | columns (r : Except Failure Schema)
  | moved (r : Except Failure Bool)
  | resized (r : Except Failure Unit)
  | cleared

/-- Whether an answer says that the cursor has gone on to a row. -/
def Answer.isRow : Answer → Bool
  | moved (.ok true) => true
  | _ => false

/-- One call. There is no answer if it does not come back. -/
def call (connections : Connections σ) (c : Cursor) (w : World σ) :
    Call → Option (Answer × Cursor × World σ)
  | .metadata =>
    let (r, c, w) := c.metadata connections w
    some (.columns r, c, w)
  | .next pages => (c.next connections pages w).map fun (r, c, w) => (.moved r, c, w)
  | .setPageSize n =>
    match c.setPageSize n with
    | .ok c => some (.resized (.ok ()), c, w)
    | .error e => some (.resized (.error e), c, w)
  | .clearInterrupt =>
    let (c, w) := c.clearInterrupt w
    some (.cleared, c, w)

/-- The same cursor with another token. -/
def withInterrupt (t : Token) : Cursor → Cursor
  | paged c => paged { c with interrupt := t }
  | streamed c => streamed { c with interrupt := t }

/-- What happens to a cursor and around it. -/
inductive Happening (σ : Type) where
  | called (x : Call)
  /-- The cursor is given another token. -/
  | given (t : Token)
  /-- The interrupts and the services change. -/
  | meanwhile (f : World σ → World σ)

/-- What comes of a happening, with the answer if there is one. -/
def happen (connections : Connections σ) (c : Cursor) (w : World σ) :
    Happening σ → Option (List Answer × Cursor × World σ)
  | .called x => (c.call connections w x).map fun (a, c, w) => ([a], c, w)
  | .given t => some ([], c.withInterrupt t, w)
  | .meanwhile f => some ([], c, f w)

/-- What comes of happenings in any order, with the answers. Nothing if a call does not come
back. -/
def run (connections : Connections σ) :
    List (Happening σ) → Cursor → World σ → Option (List Answer × Cursor × World σ)
  | [], c, w => some ([], c, w)
  | x :: happenings, c, w =>
    (c.happen connections w x).bind fun (l, c, w) =>
      (run connections happenings c w).map fun (l', c, w) => (l ++ l', c, w)

variable {connections : Connections σ} {c c' : Cursor} {w w' : World σ}

/-- What every happening keeps holds after every run. -/
theorem run_induction {P : List (Happening σ) → List Answer → Cursor → World σ → Prop}
    (past : List (Happening σ)) (answers : List Answer)
    (hstep : ∀ {past answers c w x l c' w'}, P past answers c w →
      c.happen connections w x = some (l, c', w') → P (past ++ [x]) (answers ++ l) c' w')
    {happenings : List (Happening σ)} {l : List Answer} (h : P past answers c w)
    (hrun : c.run connections happenings w = some (l, c', w')) :
    P (past ++ happenings) (answers ++ l) c' w' := by
  induction happenings generalizing past answers l c w with
  | nil =>
    cases hrun
    rwa [List.append_nil, List.append_nil]
  | cons x happenings ih =>
    obtain ⟨⟨l₁, c₁, w₁⟩, hx, hrest⟩ := Option.bind_eq_some_iff.1 hrun
    obtain ⟨⟨l₂, c₂, w₂⟩, hrest, he⟩ := Option.map_eq_some_iff.1 hrest
    cases he
    rw [← List.append_assoc, List.append_cons]
    exact ih _ _ (hstep h hx) hrest

/-- A run in two parts. -/
theorem run_append_eq_bind (before after : List (Happening σ)) :
    c.run connections (before ++ after) w =
      (c.run connections before w).bind fun (l, c, w) =>
        (c.run connections after w).map fun (l', c, w) => (l ++ l', c, w) := by
  induction before generalizing c w with
  | nil => simp [run]
  | cons x before ih =>
    rw [List.cons_append, run, run]
    cases c.happen connections w x with
    | none => rfl
    | some r => simp [ih, Option.map_bind, Option.bind_map, Function.comp_def]

/-- A run goes on from where another has ended. -/
theorem run_append {before after : List (Happening σ)} {l l' : List Answer} {c'' : Cursor}
    {w'' : World σ} (h : c.run connections before w = some (l, c', w'))
    (h' : c'.run connections after w' = some (l', c'', w'')) :
    c.run connections (before ++ after) w = some (l ++ l', c'', w'') := by
  rw [run_append_eq_bind, h]
  simp only [Option.bind_some, h', Option.map_some]

/-- One more thing that happens. -/
theorem run_concat {past : List (Happening σ)} {x : Happening σ} {l l' : List Answer}
    {c'' : Cursor} {w'' : World σ} (h : c.run connections past w = some (l, c', w'))
    (hx : c'.happen connections w' x = some (l', c'', w'')) :
    c.run connections (past ++ [x]) w = some (l ++ l', c'', w'') := by
  refine run_append h ?_
  rw [run, hx]
  simp only [Option.bind_some, run, Option.map_some, List.append_nil]

/-! ### Standings -/

/-- What can be told of a cursor between two calls. -/
structure Standing where
  rowNumber : Nat
  current : Option Row
  afterLast : Bool
  isLast : Bool
  schema : Option Schema

namespace Standing

/-- Where a cursor of this standing is. -/
def position (s : Standing) : Position := .of s.rowNumber s.afterLast s.isLast

/-- A call that leads from one standing to another, with its answer. -/
structure Leads (s : Standing) (a : Answer) (s' : Standing) : Prop where
  rowNumber : s'.rowNumber = s.rowNumber + if a.isRow then 1 else 0
  afterLast : s.afterLast = true → s'.afterLast = true
  isLast : s.isLast = true → s'.isLast = true ∨ s'.afterLast = true
  schema : ∀ columns, s.schema = some columns → s'.schema = some columns
  answered : ∀ columns, a = .columns (.ok columns) → s'.schema = some columns
  ended : a = .moved (.ok false) → s'.afterLast = true

variable {s s' : Standing} {a : Answer}

/-- A call never leads to an earlier position. -/
theorem Leads.position_le (h : s.Leads a s') : s.position ≤ s'.position :=
  Position.of_le_of (h.rowNumber ▸ Nat.le_add_right _ _) h.afterLast h.isLast

end Standing

end QueryResults.Cursor
