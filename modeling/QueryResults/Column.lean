/-!
# Columns of a result

The description of one result column, as the cursors report it and as the row readers use it.

## Main definitions

* `Nullability`, `Nullability.ofCode`.
* `Column`, `Schema`, `Row`.
-/

namespace QueryResults

/-- Whether a column may hold NULL. -/
inductive Nullability where
  | nullable
  | notNull
  | unknown
  deriving DecidableEq, Repr

/-- The nullability behind the integer code of the binary column metadata. -/
def Nullability.ofCode (code : Nat) : Nullability :=
  match code with
  | 1 => .notNull
  | 2 => .nullable
  | _ => .unknown

/-- The integer code of a nullability in the binary column metadata. -/
def Nullability.code : Nullability → Nat
  | .notNull => 1
  | .nullable => 2
  | .unknown => 0

@[simp] theorem Nullability.ofCode_code (n : Nullability) : ofCode n.code = n := by
  cases n <;> rfl

/-- Description of one result column. -/
structure Column where
  catalog : Option String := none
  name : String := ""
  label : String := ""
  type : String := ""
  precision : Int := 0
  scale : Int := 0
  nullability : Nullability := .unknown
  caseSensitive : Bool := false
  deriving DecidableEq, Repr

/-- The columns of a result, in order. -/
abbrev Schema := List Column

/-- A row as text values; `none` is NULL. -/
abbrev Row := List (Option String)

end QueryResults
