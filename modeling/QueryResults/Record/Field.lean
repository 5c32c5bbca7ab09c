import QueryResults.Failure
import QueryResults.Record.Varint
import QueryResults.Text.Utf8

/-!
# Tagged records

A record is a sequence of numbered fields. Each field starts with a tag, a number whose three low
bits are the wire type and whose other bits are the field's number. Two wire types are understood: a
number, and a payload of raw bytes behind its length. What a payload means is left to the reader of
the field: a text, another record, or bytes.

Fields keep their order and their repetitions.

## Main definitions

* `Record.Value`, `Record.Field`.
* `Record.nextField`, `Record.decode`: reading fields.
* `Record.encodeField`, `Record.encode`: writing them.
* `Field.asInteger`, `Field.asBytes`, `Field.asText`, `Field.nested`: the meanings of a field.

## Main results

* `Record.length_nextField_lt`: a field takes up at least one byte.
-/

namespace QueryResults.Record

/-- What a field holds. -/
inductive Value where
  | integer (n : UInt64)
  | bytes (payload : List UInt8)
  deriving DecidableEq, Repr

/-- A numbered field. -/
structure Field where
  number : UInt32
  value : Value
  deriving DecidableEq, Repr

/-- Why a record, or a field of it, could not be read. -/
inductive Fault where
  /-- A number is not well formed. -/
  | varint (fault : Varint.Fault)
  /-- The field's number needs more than 32 bits. -/
  | numberOutOfRange (tag : UInt64)
  /-- A payload is longer than what is left of the input. -/
  | shortPayload (number : UInt32) (declared : UInt64) (left : Nat)
  /-- The wire type is not one of the two. -/
  | unsupported (wireType : Nat) (number : UInt32)
  /-- A payload stands where a number is expected. -/
  | notInteger (number : UInt32)
  /-- A number stands where a payload is expected. -/
  | notBytes (number : UInt32)
  /-- A payload that should be a text is none. -/
  | notUtf8 (number : UInt32) (fault : Utf8.Fault)
  deriving DecidableEq, Repr

/-- The message for a record that could not be read. -/
def Fault.message : Fault → String
  | varint .incomplete => "Incomplete varint"
  | varint .tooLong => "Varint too long"
  | numberOutOfRange tag => s!"Field number out of range in tag {tag}"
  | shortPayload number declared left =>
    s!"Field {number} declares {declared} bytes but only {left} remain"
  | unsupported wireType number => s!"Unsupported wire type {wireType} for field {number}"
  | notInteger number => s!"Field {number} is length-delimited, expected an integer"
  | notBytes number => s!"Field {number} is an integer, expected a length-delimited payload"
  | notUtf8 number fault =>
    let reason := fault.text
    s!"Field {number} is not valid UTF-8: {reason}"

/-- The failure reported for a record that could not be read. -/
def Fault.toFailure (f : Fault) : Failure := .data f.message

/-- The wire type of a number. -/
def integerType : Nat := 0

/-- The wire type of a payload. -/
def bytesType : Nat := 2

/-! ### Writing -/

/-- The tag of a field. -/
def Field.tag (f : Field) : Nat :=
  match f.value with
  | .integer _ => f.number.toNat * 8 + integerType
  | .bytes _ => f.number.toNat * 8 + bytesType

/-- The written form of what a field holds. -/
def Value.encode : Value → List UInt8
  | integer n => Varint.encode n.toNat
  | bytes payload => Varint.encode payload.length ++ payload

/-- The written form of a field. -/
def encodeField (f : Field) : List UInt8 := Varint.encode f.tag ++ f.value.encode

/-- The written form of a record. -/
def encode (fields : List Field) : List UInt8 := fields.flatMap encodeField

/-! ### Reading -/

/-- Reads what a field of the given wire type holds. -/
def readValue (wireType : Nat) (number : UInt32) (bytes : List UInt8) :
    Except Fault Value × List UInt8 :=
  if wireType = integerType then
    match Varint.read bytes with
    | (.error e, rest) => (.error (.varint e), rest)
    | (.ok n, rest) => (.ok (.integer n), rest)
  else if wireType = bytesType then
    match Varint.read bytes with
    | (.error e, rest) => (.error (.varint e), rest)
    | (.ok length, rest) =>
      if length.toNat ≤ rest.length then
        (.ok (.bytes (rest.take length.toNat)), rest.drop length.toNat)
      else (.error (.shortPayload number length rest.length), rest)
  else (.error (.unsupported wireType number), bytes)

/-- The field number in a tag. -/
def tagNumber (tag : UInt64) : UInt32 := .ofNat (tag.toNat / 8)

/-- Reads the first field; none at the end of the input. The second part is what is left unread,
also where no field could be read. -/
def nextField (bytes : List UInt8) : Except Fault (Option Field) × List UInt8 :=
  if bytes.isEmpty then (.ok none, bytes)
  else
    match Varint.read bytes with
    | (.error e, rest) => (.error (.varint e), rest)
    | (.ok tag, rest) =>
      if tag.toNat / 8 < UInt32.size then
        match readValue (tag.toNat % 8) (tagNumber tag) rest with
        | (.error e, rest) => (.error e, rest)
        | (.ok value, rest) => (.ok (some { number := tagNumber tag, value }), rest)
      else (.error (.numberOutOfRange tag), rest)

theorem length_readValue_le {wireType : Nat} {number : UInt32} {bytes rest : List UInt8}
    {v : Value} (h : readValue wireType number bytes = (.ok v, rest)) :
    rest.length ≤ bytes.length := by
  unfold readValue at h
  split at h
  · split at h
    · cases h
    · rename_i hr
      cases h
      exact Varint.length_read_le hr
  · split at h
    · split at h
      · cases h
      · rename_i hr
        have := Varint.length_read_le hr
        split at h
        · cases h
          simp only [List.length_drop]
          omega
        · cases h
    · cases h

/-- A field takes up at least one byte. -/
theorem length_nextField_lt {bytes rest : List UInt8} {f : Field}
    (h : nextField bytes = (.ok (some f), rest)) : rest.length < bytes.length := by
  unfold nextField at h
  split at h
  · cases h
  · split at h
    · cases h
    · rename_i hr
      have := Varint.length_read_lt hr
      split at h
      · split at h
        · cases h
        · rename_i hv
          cases h
          have := length_readValue_le hv
          omega
      · cases h

/-- Reads all fields of a record, in order. -/
def decode (bytes : List UInt8) : Except Fault (List Field) :=
  match _h : nextField bytes with
  | (.error e, _) => .error e
  | (.ok none, _) => .ok []
  | (.ok (some f), rest) => (decode rest).map (f :: ·)
termination_by bytes.length
decreasing_by exact length_nextField_lt _h

/-! ### Meanings of a field -/

namespace Field

/-- The number a field holds. -/
def asInteger (f : Field) : Except Fault UInt64 :=
  match f.value with
  | .integer n => .ok n
  | .bytes _ => .error (.notInteger f.number)

/-- The payload a field holds. -/
def asBytes (f : Field) : Except Fault (List UInt8) :=
  match f.value with
  | .bytes payload => .ok payload
  | .integer _ => .error (.notBytes f.number)

/-- The text a field holds. -/
def asText (f : Field) : Except Fault String := do
  let payload ← f.asBytes
  match Utf8.decode payload with
  | .ok text => .ok (.ofList text)
  | .error fault => .error (.notUtf8 f.number fault)

/-- The record a field holds. -/
def nested (f : Field) : Except Fault (List Field) := do
  decode (← f.asBytes)

end Field

end QueryResults.Record
