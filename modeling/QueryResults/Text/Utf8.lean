/-!
# UTF-8

Text is stored and sent as UTF-8. Decoding accepts well-formed sequences only: no surplus bytes, no
surrogates, nothing beyond the last code point. A fault names the number of well-formed bytes in
front of it, and the number of bytes that no longer sequence could start with, unless the input just
ends inside a sequence.

## Main definitions

* `Utf8.encode`, `Utf8.decode`.
* `Utf8.decodeAny`: decoding that replaces what is not well formed.
* `Utf8.Fault`, `Utf8.Fault.text`: where decoding stops, and the words for it.
-/

namespace QueryResults.Utf8

/-- The bytes of a text. -/
def encode (text : List Char) : List UInt8 := text.flatMap String.utf8EncodeChar

/-- Where a byte sequence stops being UTF-8. -/
structure Fault where
  /-- The number of well-formed bytes before the fault. -/
  index : Nat
  /-- The number of bytes that start no sequence; none if the input ends inside a sequence. -/
  length : Option Nat
  deriving DecidableEq, Repr

/-- The words for a fault. -/
def Fault.text (f : Fault) : String :=
  match f.length with
  | some n => "invalid utf-8 sequence of " ++ toString n ++ " bytes from index " ++ toString f.index
  | none => "incomplete utf-8 byte sequence from index " ++ toString f.index

/-- Bytes that continue a sequence. -/
def isTail (b : UInt8) : Bool := 0x80 ≤ b && b ≤ 0xBF

/-- The shape of a sequence of more than one byte: how many bytes follow the first, and the range of
the second. The narrower ranges exclude surplus bytes, surrogates, and code points beyond the
last. -/
structure Shape where
  tails : Nat
  low : UInt8
  high : UInt8
  deriving DecidableEq, Repr

/-- The shape that a first byte announces, if it starts a longer sequence. -/
def Shape.ofLead (b : UInt8) : Option Shape :=
  if 0xC2 ≤ b && b ≤ 0xDF then some ⟨1, 0x80, 0xBF⟩
  else if b = 0xE0 then some ⟨2, 0xA0, 0xBF⟩
  else if b = 0xED then some ⟨2, 0x80, 0x9F⟩
  else if 0xE1 ≤ b && b ≤ 0xEF then some ⟨2, 0x80, 0xBF⟩
  else if b = 0xF0 then some ⟨3, 0x90, 0xBF⟩
  else if 0xF1 ≤ b && b ≤ 0xF3 then some ⟨3, 0x80, 0xBF⟩
  else if b = 0xF4 then some ⟨3, 0x80, 0x8F⟩
  else none

/-- The six payload bits of a continuing byte. -/
def tailBits (b : UInt8) : Nat := b.toNat % 64

/-- Decodes the bytes that start `index` bytes into the input. -/
def decodeFrom (index : Nat) : List UInt8 → Except Fault (List Char)
  | [] => .ok []
  | b₀ :: rest =>
    if b₀ < 0x80 then
      (decodeFrom (index + 1) rest).map (Char.ofNat b₀.toNat :: ·)
    else
      match Shape.ofLead b₀, rest with
      | none, _ => .error ⟨index, some 1⟩
      | some _, [] => .error ⟨index, none⟩
      | some shape, b₁ :: rest =>
        if !(shape.low ≤ b₁ && b₁ ≤ shape.high) then .error ⟨index, some 1⟩
        else if shape.tails = 1 then
          (decodeFrom (index + 2) rest).map
            (Char.ofNat (b₀.toNat % 32 * 64 + tailBits b₁) :: ·)
        else
          match rest with
          | [] => .error ⟨index, none⟩
          | b₂ :: rest =>
            if !isTail b₂ then .error ⟨index, some 2⟩
            else if shape.tails = 2 then
              (decodeFrom (index + 3) rest).map
                (Char.ofNat ((b₀.toNat % 16 * 64 + tailBits b₁) * 64 + tailBits b₂) :: ·)
            else
              match rest with
              | [] => .error ⟨index, none⟩
              | b₃ :: rest =>
                if !isTail b₃ then .error ⟨index, some 3⟩
                else
                  (decodeFrom (index + 4) rest).map
                    (Char.ofNat (((b₀.toNat % 8 * 64 + tailBits b₁) * 64 + tailBits b₂) * 64
                      + tailBits b₃) :: ·)

/-- Decodes a byte sequence. -/
def decode (bytes : List UInt8) : Except Fault (List Char) := decodeFrom 0 bytes

/-- Decodes any byte sequence: bytes that start no sequence are shown as one replacement character
per fault. -/
def decodeAny (bytes : List UInt8) : List Char :=
  match bytes, decode bytes with
  | [], _ => []
  | _ :: _, .ok text => text
  | b :: rest, .error fault =>
    let front := ((decode ((b :: rest).take fault.index)).toOption).getD []
    match fault.length with
    | none => front ++ ['\uFFFD']
    | some n => front ++ '\uFFFD' :: decodeAny (rest.drop (fault.index + n - 1))
termination_by bytes.length
decreasing_by
  simp only [List.length_drop, List.length_cons]
  omega

end QueryResults.Utf8
