import QueryResults.Json.Value

/-!
# Reading JSON

The grammar of JSON without extensions: no comments, no trailing commas, no leading zeros, no
control characters inside strings, and nothing but blanks after the value.

## Main definitions

* `Json.parse`: the value a text denotes, if it is JSON.
-/

namespace QueryResults.Json

/-- The characters that may stand between tokens. -/
def isSpace (c : Char) : Bool := c = ' ' || c = '\t' || c = '\n' || c = '\r'

/-- A text without the spaces in front. -/
def skipSpaces (text : List Char) : List Char := text.dropWhile isSpace

/-! ### Numbers -/

/-- The number that decimal digits denote. -/
def digitsValue (digits : List Char) : Nat :=
  digits.foldl (fun n c => n * 10 + (c.toNat - '0'.toNat)) 0

/-- Splits off the digits in front, at least one. -/
def splitDigits (text : List Char) : Option (List Char × List Char) :=
  let digits := text.takeWhile Char.isDigit
  if digits.isEmpty then none else some (digits, text.dropWhile Char.isDigit)

/-- The digits in front of the point: a lone zero, or digits that do not start with zero. -/
def splitWhole (text : List Char) : Option (List Char × List Char) :=
  match splitDigits text with
  | some ('0' :: _ :: _, _) => none
  | split => split

/-- Skips a fraction; the second part says whether there was one. -/
def skipFraction : List Char → Option (List Char × Bool)
  | '.' :: rest => (splitDigits rest).map fun s => (s.2, true)
  | text => some (text, false)

/-- A text without a sign in front. -/
def skipSign : List Char → List Char
  | '+' :: rest | '-' :: rest => rest
  | text => text

/-- Skips an exponent; the second part says whether there was one. -/
def skipExponent : List Char → Option (List Char × Bool)
  | 'e' :: rest | 'E' :: rest => (splitDigits (skipSign rest)).map fun s => (s.2, true)
  | text => some (text, false)

/-- Reads a number, without its sign. -/
def readUnsigned (negative : Bool) (text : List Char) : Option (Number × List Char) := do
  let (digits, rest) ← splitWhole text
  let (rest, fraction) ← skipFraction rest
  let (rest, exponent) ← skipExponent rest
  let n := digitsValue digits
  if fraction || exponent || (negative && n = 0) then some (.fractional, rest)
  else some (.integer (if negative then -(n : Int) else n), rest)

/-- Reads a number. -/
def readNumber : List Char → Option (Number × List Char)
  | '-' :: rest => readUnsigned true rest
  | text => readUnsigned false text

/-! ### Strings -/

/-- The value of a hexadecimal digit. -/
def hexValue (c : Char) : Option Nat :=
  if '0' ≤ c && c ≤ '9' then some (c.toNat - '0'.toNat)
  else if 'a' ≤ c && c ≤ 'f' then some (c.toNat - 'a'.toNat + 10)
  else if 'A' ≤ c && c ≤ 'F' then some (c.toNat - 'A'.toNat + 10)
  else none

/-- The code of four hexadecimal digits. -/
def hexCode (a b c d : Char) : Option Nat := do
  let a ← hexValue a
  let b ← hexValue b
  let c ← hexValue c
  let d ← hexValue d
  some (((a * 16 + b) * 16 + c) * 16 + d)

/-- The character behind an escape of one letter. -/
def shortEscape (c : Char) : Option Char :=
  match c with
  | '"' => some '"'
  | '\\' => some '\\'
  | '/' => some '/'
  | 'b' => some (Char.ofNat 8)
  | 'f' => some (Char.ofNat 12)
  | 'n' => some '\n'
  | 'r' => some '\r'
  | 't' => some '\t'
  | _ => none

/-- One unit of a string: a character, or half of a surrogate pair. -/
inductive StringUnit where
  | char (c : Char)
  | half (code : Nat)
  deriving DecidableEq, Repr

/-- The unit with a code of sixteen bits. -/
def StringUnit.ofCode (code : Nat) : StringUnit :=
  if 0xD800 ≤ code && code ≤ 0xDFFF then .half code else .char (Char.ofNat code)

/-- Reads the units of a string up to its closing quote. -/
def readUnits : List Char → Option (List StringUnit × List Char)
  | [] => none
  | '"' :: rest => some ([], rest)
  | '\\' :: 'u' :: a :: b :: c :: d :: rest => do
    let code ← hexCode a b c d
    let (units, rest) ← readUnits rest
    some (.ofCode code :: units, rest)
  | '\\' :: e :: rest => do
    let c ← shortEscape e
    let (units, rest) ← readUnits rest
    some (.char c :: units, rest)
  | c :: rest =>
    if c.toNat < 0x20 || c = '\\' then none
    else do
      let (units, rest) ← readUnits rest
      some (.char c :: units, rest)

/-- The text of units: a first and a second half that follow each other are one character; a half
without its partner denotes nothing. -/
def textOfUnits : List StringUnit → Option (List Char)
  | [] => some []
  | .char c :: rest => (textOfUnits rest).map (c :: ·)
  | .half a :: .half b :: rest =>
    if a < 0xDC00 && 0xDC00 ≤ b then
      (textOfUnits rest).map (Char.ofNat (0x10000 + (a - 0xD800) * 1024 + (b - 0xDC00)) :: ·)
    else none
  | .half _ :: _ => none

/-- Reads a string whose opening quote is consumed. -/
def readString (text : List Char) : Option (Option String × List Char) := do
  let (units, rest) ← readUnits text
  some ((textOfUnits units).map .ofList, rest)

/-! ### Values -/

/-- The text behind a literal word, if it stands in front. -/
def skipWord : List Char → List Char → Option (List Char)
  | [], text => some text
  | _ :: _, [] => none
  | c :: word, d :: text => if c = d then skipWord word text else none

mutual

/-- Reads a value from the first character that is not a space, in at most `fuel` steps. -/
def readValue : (fuel : Nat) → List Char → Option (Value × List Char)
  | 0, _ => none
  | fuel + 1, text =>
    match skipSpaces text with
    | [] => none
    | '"' :: rest => (readString rest).map fun s => (.string s.1, s.2)
    | '[' :: rest =>
      match skipSpaces rest with
      | ']' :: rest => some (.array [], rest)
      | _ => (readItems fuel rest).map fun r => (.array r.1, r.2)
    | '\x7b' :: rest =>
      match skipSpaces rest with
      | '\x7d' :: rest => some (.object [], rest)
      | _ => (readMembers fuel rest).map fun r => (.object r.1, r.2)
    | 'n' :: rest => (skipWord "ull".toList rest).map fun rest => (.null, rest)
    | 't' :: rest => (skipWord "rue".toList rest).map fun rest => (.bool true, rest)
    | 'f' :: rest => (skipWord "alse".toList rest).map fun rest => (.bool false, rest)
    | text => (readNumber text).map fun n => (.number n.1, n.2)

/-- Reads the items of an array from the first one on, with the closing bracket. -/
def readItems : (fuel : Nat) → List Char → Option (List Value × List Char)
  | 0, _ => none
  | fuel + 1, text => do
    let (item, rest) ← readValue fuel text
    match skipSpaces rest with
    | ']' :: rest => some ([item], rest)
    | ',' :: rest => do
      let (items, rest) ← readItems fuel rest
      some (item :: items, rest)
    | _ => none

/-- Reads the members of an object from the first one on, with the closing brace. -/
def readMembers : (fuel : Nat) → List Char → Option (List (Option String × Value) × List Char)
  | 0, _ => none
  | fuel + 1, text =>
    match skipSpaces text with
    | '"' :: rest => do
      let (key, rest) ← readString rest
      match skipSpaces rest with
      | ':' :: rest => do
        let (value, rest) ← readValue fuel rest
        match skipSpaces rest with
        | '\x7d' :: rest => some ([(key, value)], rest)
        | ',' :: rest => do
          let (members, rest) ← readMembers fuel rest
          some ((key, value) :: members, rest)
        | _ => none
      | _ => none
    | _ => none

end

/-- The value that a text denotes. Of two steps down at least one consumes a character, so the fuel
never runs out. -/
def parse (text : String) : Option Value := do
  let chars := text.toList
  let (value, rest) ← readValue (2 * chars.length + 2) chars
  if (skipSpaces rest).isEmpty then some value else none

end QueryResults.Json
