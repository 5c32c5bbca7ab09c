/-!
# JSON values

JSON as it is needed to read messages: objects keep their members in order, repeated keys included,
and numbers are told apart only as far as messages need it.

A string may hold an escape for half of a surrogate pair. It then denotes no text, which matters
only to whoever wants its text, so such a string is a value of its own.

## Main definitions

* `Json.Number`, `Json.Value`.
* `Json.escape`, `Json.quote`, `Json.writeObject`: writing.
-/

namespace QueryResults.Json

/-- A number: an integer, or one written with a fraction, an exponent, or as minus zero. -/
inductive Number where
  | integer (n : Int)
  | fractional
  deriving DecidableEq, Repr

/-- A JSON value. A string or a key without a text holds half of a surrogate pair. -/
inductive Value where
  | null
  | bool (b : Bool)
  | number (n : Number)
  | string (text : Option String)
  | array (items : List Value)
  | object (members : List (Option String × Value))
  deriving Repr

/-! ### Writing -/

/-- Four hexadecimal digits of a number below 2^16. -/
def hex4 (n : Nat) : List Char :=
  [Nat.digitChar (n / 4096 % 16), Nat.digitChar (n / 256 % 16), Nat.digitChar (n / 16 % 16),
    Nat.digitChar (n % 16)]

/-- A character as it stands inside a written string: quote, backslash and control characters are
escaped, by their short escape where there is one. -/
def escape (c : Char) : List Char :=
  if c = '"' then ['\\', '"']
  else if c = '\\' then ['\\', '\\']
  else if c.toNat = 8 then ['\\', 'b']
  else if c.toNat = 9 then ['\\', 't']
  else if c.toNat = 10 then ['\\', 'n']
  else if c.toNat = 12 then ['\\', 'f']
  else if c.toNat = 13 then ['\\', 'r']
  else if c.toNat < 0x20 then '\\' :: 'u' :: hex4 c.toNat
  else [c]

/-- A text as a written string. -/
def quote (text : String) : String :=
  "\"" ++ String.ofList (text.toList.flatMap escape) ++ "\""

/-- A written object, of keys and written values, without blanks. -/
def writeObject (members : List (String × String)) : String :=
  "\x7b" ++ ",".intercalate (members.map fun m => quote m.1 ++ ":" ++ m.2) ++ "\x7d"

end QueryResults.Json
