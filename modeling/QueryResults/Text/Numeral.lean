import QueryResults.Text.Blank

/-!
# Numerals in settings

A numeral is one decimal digit or more, after an optional plus sign. It stands for a number below
2^64; a larger one is refused, as is any other text. Blanks around a numeral do not count.

## Main definitions

* `Numeral.value`: the number a string of digits denotes.
* `Numeral.read`: the number a text denotes, if it is a numeral below 2^64.
-/

namespace QueryResults.Numeral

/-- The number that digits denote, the most significant digit first, read on from `n`. -/
def value (n : Nat) (digits : List Char) : Nat :=
  digits.foldl (fun n c => n * 10 + (c.toNat - '0'.toNat)) n

/-- A numeral without its plus sign. -/
def dropSign : List Char → List Char
  | '+' :: rest => rest
  | text => text

/-- The number a text denotes, if it is a numeral below 2^64. -/
def read (text : String) : Option UInt64 :=
  let digits := dropSign (trimBlanks text.toList)
  if !digits.isEmpty && digits.all Char.isDigit && value 0 digits < UInt64.size then
    some (.ofNat (value 0 digits))
  else none

end QueryResults.Numeral
