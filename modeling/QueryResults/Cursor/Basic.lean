import QueryResults.Column
import QueryResults.Failure
import QueryResults.Settings.Basic

/-!
# What all cursors share

A cursor goes forward over the rows of a result, one row at a time. It starts before the first row
and ends after the last.

## Main definitions

* `Position`, `Position.of`: where a cursor stands; `Position.rank` orders the positions.
* `currentValue`: a column of the current row.
* `checkPageSize`: the page sizes that can be set.
-/

namespace QueryResults

/-- Where a cursor stands. -/
inductive Position where
  | beforeFirst
  | first
  | middle
  | last
  | afterLast
  deriving DecidableEq, Repr

/-- The position after `row` rows. Being past the end wins over everything, then not having begun,
then being on the last row, so the only row of a result is its last. -/
def Position.of (row : Nat) (afterLast isLast : Bool) : Position :=
  if afterLast then .afterLast
  else if row = 0 then .beforeFirst
  else if isLast then .last
  else if row = 1 then .first
  else .middle

/-- How many positions come before a position in the order in which a cursor passes them. -/
def Position.rank : Position → Nat
  | beforeFirst => 0
  | first => 1
  | middle => 2
  | last => 3
  | afterLast => 4

/-- Positions in the order in which a cursor passes them. -/
instance : LE Position := ⟨fun p q => p.rank ≤ q.rank⟩

theorem Position.rank_of (row : Nat) (afterLast isLast : Bool) :
    (Position.of row afterLast isLast).rank =
      if afterLast then 4 else if row = 0 then 0 else if isLast then 3 else min row 2 := by
  unfold of
  repeat' split
  all_goals simp only [rank]
  all_goals omega

/-- The position does not go back if the row number does not, and if the end is not left, nor the
last row but for the end. -/
theorem Position.of_le_of {row row' : Nat} {afterLast isLast afterLast' isLast' : Bool}
    (hrow : row ≤ row') (hafter : afterLast = true → afterLast' = true)
    (hlast : isLast = true → isLast' = true ∨ afterLast' = true) :
    Position.of row afterLast isLast ≤ Position.of row' afterLast' isLast' := by
  change (Position.of row afterLast isLast).rank ≤ (Position.of row' afterLast' isLast').rank
  rw [rank_of, rank_of]
  grind

/-- The value of a column in the current row. -/
def currentValue (current : Option Row) (i : Nat) : Except Failure (Option String) :=
  match current with
  | none => .error (.invalidState "No current row; call next() first")
  | some row =>
    match row[i]? with
    | some value => .ok value
    | none =>
      let size := row.length
      .error (.invalidArgument s!"Column index {i} out of range for row of {size} columns")

/-- Refuses a page size that is too small or too large. -/
def checkPageSize (n : Nat) : Except Failure Unit :=
  if n = 0 ∨ maxPageSize < n then
    .error (.invalidArgument s!"Fetch size must be between 1 and {maxPageSize}, got {n}")
  else .ok ()

end QueryResults
