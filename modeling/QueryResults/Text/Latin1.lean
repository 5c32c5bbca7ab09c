/-!
# Bytes shown as Latin-1 characters

A single byte is shown in messages as the Latin-1 character with its code, between single quotes.
Characters that cannot be seen are written as escapes.

## Main definitions

* `Latin1.isVisible`, `Latin1.quoted`.
-/

namespace QueryResults.Latin1

/-- The Latin-1 characters with a visible shape of their own, and the space. The no-break space and
the soft hyphen have none. -/
def isVisible (b : UInt8) : Bool :=
  (0x20 ≤ b && b ≤ 0x7E) || (0xA1 ≤ b && b ≠ 0xAD)

/-- What stands between the quotes. -/
def body (b : UInt8) : String :=
  if b = 0 then "\\0"
  else if b = 9 then "\\t"
  else if b = 10 then "\\n"
  else if b = 13 then "\\r"
  else if b = 0x27 then "\\'"
  else if b = 0x5C then "\\\\"
  else if isVisible b then String.ofList [Char.ofNat b.toNat]
  else "\\u\x7b" ++ String.ofList (Nat.toDigits 16 b.toNat) ++ "\x7d"

/-- A byte as a quoted Latin-1 character. -/
def quoted (b : UInt8) : String := "'" ++ body b ++ "'"

end QueryResults.Latin1
