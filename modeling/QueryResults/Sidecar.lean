import QueryResults.Column
import QueryResults.Record.Field

/-!
# Column metadata beside a result file

Next to a result file lies a record that describes its columns. Its field 1 is repeated, once a
column, and each of them is a record of that column's attributes:

* 1 catalog, 4 name, 5 label, 6 type, each a text;
* 7 precision and 8 scale, each a number below 2^63;
* 9 nullability, a code; 10 whether the column is case sensitive, zero or not.

All other numbers are skipped. An attribute given more than once counts with its last value, one
that is missing has its default, and a column without a label is labelled with its name.

## Main definitions

* `Sidecar.keySuffix`: where the record lies.
* `Sidecar.parse`: the columns described by a record.
* `Sidecar.encode`: the record that describes columns.
-/

namespace QueryResults.Sidecar

/-- What is appended to the key of a result file to get the key of its column metadata. -/
def keySuffix : String := ".metadata"

/-- The number of the fields that describe columns. -/
def columnNumber : UInt32 := 1

/-- The numbers of the attributes of a column. -/
inductive Attribute where
  | catalog
  | name
  | label
  | type
  | precision
  | scale
  | nullability
  | caseSensitive
  deriving DecidableEq, Repr

/-- The field number of an attribute. -/
def Attribute.number : Attribute → UInt32
  | catalog => 1
  | name => 4
  | label => 5
  | type => 6
  | precision => 7
  | scale => 8
  | nullability => 9
  | caseSensitive => 10

/-- The attribute with a field number. -/
def Attribute.ofNumber? (n : UInt32) : Option Attribute :=
  [catalog, name, label, type, precision, scale, nullability, caseSensitive].find?
    (·.number = n)

/-- Why column metadata could not be read. -/
inductive Fault where
  | record (fault : Record.Fault)
  /-- A precision or a scale does not fit a signed 64-bit number. -/
  | outOfRange (which : Attribute) (value : UInt64)
  deriving DecidableEq, Repr

/-- The word for an attribute in messages. -/
def Attribute.word : Attribute → String
  | catalog => "catalog"
  | name => "name"
  | label => "label"
  | type => "type"
  | precision => "precision"
  | scale => "scale"
  | nullability => "nullability"
  | caseSensitive => "case sensitive"

/-- The message for column metadata that could not be read. -/
def Fault.message : Fault → String
  | record fault => fault.message
  | outOfRange which value =>
    let word := which.word
    s!"Column {word} {value} out of range"

/-- The failure reported for column metadata that could not be read. -/
def Fault.toFailure (f : Fault) : Failure := .data f.message

/-! ### Reading -/

/-- A column while its attributes are read: the label is still open. -/
structure Draft where
  column : Column := {}
  label : Option String := none
  deriving DecidableEq, Repr

/-- The column with the label given, or else with its name as label. -/
def Draft.finish (d : Draft) : Column :=
  { d.column with label := d.label.getD d.column.name }

/-- The text a field holds. -/
def textOf (f : Record.Field) : Except Fault String := f.asText.mapError .record

/-- The number a field holds. -/
def integerOf (f : Record.Field) : Except Fault UInt64 := f.asInteger.mapError .record

/-- The number a field holds, if it fits a signed 64-bit number. -/
def signedOf (which : Attribute) (f : Record.Field) : Except Fault Int := do
  let n ← integerOf f
  if n.toNat < UInt64.size / 2 then .ok n.toNat else .error (.outOfRange which n)

/-- Takes one field of a column's record into account. -/
def Draft.set (d : Draft) (f : Record.Field) : Except Fault Draft :=
  match Attribute.ofNumber? f.number with
  | none => .ok d
  | some .catalog => do
    let v ← textOf f
    .ok { d with column := { d.column with catalog := some v } }
  | some .name => do
    let v ← textOf f
    .ok { d with column := { d.column with name := v } }
  | some .label => do
    let v ← textOf f
    .ok { d with label := some v }
  | some .type => do
    let v ← textOf f
    .ok { d with column := { d.column with type := v } }
  | some .precision => do
    let v ← signedOf .precision f
    .ok { d with column := { d.column with precision := v } }
  | some .scale => do
    let v ← signedOf .scale f
    .ok { d with column := { d.column with scale := v } }
  | some .nullability => do
    let v ← integerOf f
    .ok { d with column := { d.column with nullability := .ofCode v.toNat } }
  | some .caseSensitive => do
    let v ← integerOf f
    .ok { d with column := { d.column with caseSensitive := v != 0 } }

/-- The column that a record of attributes describes. -/
def parseColumn (fields : List Record.Field) : Except Fault Column := do
  let draft ← fields.foldlM Draft.set {}
  .ok draft.finish

/-- The columns that a written record describes. -/
def parse (blob : List UInt8) : Except Fault (List Column) := do
  let fields ← (Record.decode blob).mapError .record
  (fields.filter (·.number = columnNumber)).mapM fun f => do
    parseColumn (← f.nested.mapError .record)

/-! ### Writing -/

/-- A field that holds a text. -/
def textField (which : Attribute) (text : String) : Record.Field :=
  { number := which.number, value := .bytes (Utf8.encode text.toList) }

/-- A field that holds a number. -/
def integerField (which : Attribute) (n : Nat) : Record.Field :=
  { number := which.number, value := .integer (.ofNat n) }

/-- The attributes of a column, one field each; the catalog only if there is one. -/
def columnFields (c : Column) : List Record.Field :=
  (c.catalog.map (textField .catalog)).toList ++
    [textField .name c.name, textField .label c.label, textField .type c.type,
      integerField .precision c.precision.toNat, integerField .scale c.scale.toNat,
      integerField .nullability c.nullability.code,
      integerField .caseSensitive (if c.caseSensitive then 1 else 0)]

/-- The field that describes a column. -/
def columnField (c : Column) : Record.Field :=
  { number := columnNumber, value := .bytes (Record.encode (columnFields c)) }

/-- The written record that describes columns. -/
def encode (columns : List Column) : List UInt8 := Record.encode (columns.map columnField)

end QueryResults.Sidecar
