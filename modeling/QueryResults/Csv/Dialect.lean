import QueryResults.Column
import QueryResults.StreamFault
import QueryResults.Text.Latin1
import QueryResults.Text.Utf8

/-!
# The dialect of result files

A result file is a sequence of rows with a fixed number of fields. A field is either nothing at all,
which stands for NULL, or a text between double quotes in which a quote is written twice. Fields are
separated by a comma, and every row, the last included, ends with one newline.

## Main definitions

* `Csv.encodeField`, `Csv.encodeRow`: how rows are written.
* `Csv.Fault`: what can be wrong with a row, with the message `Csv.Fault.message`.
-/

namespace QueryResults.Csv

/-- The double quote. -/
def quote : UInt8 := 0x22

/-- The comma between fields. -/
def comma : UInt8 := 0x2C

/-- The end of a row. -/
def newline : UInt8 := 0x0A

/-- A byte of a field's text as it is written between quotes. -/
def escapeByte (b : UInt8) : List UInt8 := if b = quote then [quote, quote] else [b]

/-- A written field. -/
def encodeField : Option String → List UInt8
  | none => []
  | some text => quote :: ((Utf8.encode text.toList).flatMap escapeByte ++ [quote])

/-- A written row. -/
def encodeRow : Row → List UInt8
  | [] => [newline]
  | [field] => encodeField field ++ [newline]
  | field :: row => encodeField field ++ comma :: encodeRow row

/-- What is wrong with a row. Rows and fields are numbered from one. -/
inductive Fault where
  /-- Another byte stands where the field should be followed by a comma or a newline. -/
  | unexpectedByte (row : Nat) (byte : UInt8) (field columns : Nat)
  /-- The input ends after a field. -/
  | ended (row field columns : Nat)
  /-- The input ends inside a quoted field. -/
  | unterminated (row : Nat)
  /-- The bytes of a field are not a text. -/
  | notUtf8 (row : Nat) (fault : Utf8.Fault)
  deriving DecidableEq, Repr

/-- The message for a malformed row. -/
def Fault.message : Fault → String
  | unexpectedByte row byte field columns =>
    let shown := Latin1.quoted byte
    s!"Row {row}: unexpected byte {shown} after field {field} of {columns}"
  | ended row field columns => s!"Row {row}: input ended after field {field} of {columns}"
  | unterminated row => s!"Row {row}: unterminated quoted field"
  | notUtf8 row fault =>
    let reason := fault.text
    s!"Row {row}: field is not valid UTF-8: {reason}"

/-- Why no row was read: the row is malformed, or its bytes could not be had. -/
inductive ReadError where
  | malformed (fault : Fault)
  | source (f : StreamFault)
  deriving Repr

/-- The failure reported for a row that was not read. -/
def ReadError.toFailure : ReadError → Failure
  | malformed fault => .data fault.message
  | source f => f.toFailure

end QueryResults.Csv
