import Mathlib
import QueryResults.Record.Field

/-!
# Reading back written records

A written number of 64 bits is read back from its bytes, whatever follows, and so is a written
field. A record is therefore read back as the fields it was written from, in their order and with
all their repetitions. The lengths of payloads are written as numbers; they have 64 bits where the
whole record is no longer than that.

## Main results

* `Varint.read_encode`: numbers.
* `Record.nextField_encodeField`, `Record.decode_encode`: fields and records.
-/

namespace QueryResults

namespace Varint

theorem announcesMore_ofNat {n : Nat} (h : n < 256) :
    announcesMore (.ofNat n) = decide (128 ≤ n) := by
  unfold announcesMore
  rw [decide_eq_decide, UInt8.le_iff_toNat_le, UInt8.toNat_ofNat_of_lt' h]
  rfl

/-- As many groups are allowed as the number needs. -/
theorem splitGroups_encode {limit n : Nat} (h : n < 128 ^ limit) (hpos : 0 < limit)
    (rest : List UInt8) : splitGroups limit (encode n ++ rest) = (.ok (encode n), rest) := by
  induction limit generalizing n with
  | zero => exact absurd hpos (Nat.lt_irrefl 0)
  | succ limit ih =>
    unfold encode
    split
    · rename_i hn
      rw [List.singleton_append, splitGroups, announcesMore_ofNat (by omega),
        decide_eq_false (by omega)]
      rfl
    · rename_i hn
      have hlimit : 0 < limit := by
        rcases Nat.eq_zero_or_pos limit with rfl | hl
        · simp at h
          omega
        · exact hl
      have hdiv : n / 128 < 128 ^ limit := by
        rw [Nat.pow_succ] at h
        exact Nat.div_lt_of_lt_mul (Nat.mul_comm _ _ ▸ h)
      rw [List.cons_append, splitGroups, announcesMore_ofNat (by omega), decide_eq_true (by omega),
        ih hdiv hlimit]
      rfl

theorem value_encode (n : Nat) : value (encode n) = n := by
  fun_induction encode n with
  | case1 n h =>
    simp only [value, groupBits, UInt8.toNat_ofNat_of_lt' (show n < 256 by omega)]
    omega
  | case2 n h ih =>
    simp only [value, ih, groupBits, UInt8.toNat_ofNat_of_lt' (show n % 128 + 128 < 256 by omega)]
    omega

/-- A number of 64 bits is read back, whatever follows. -/
theorem read_encode {n : Nat} (h : n < UInt64.size) (rest : List UInt8) :
    read (encode n ++ rest) = (.ok (.ofNat n), rest) := by
  unfold read
  rw [splitGroups_encode (Nat.lt_of_lt_of_le h (by decide)) (by decide)]
  simp only [value_encode]

end Varint

namespace Record

/-- A field whose payload, if it has one, has a length of 64 bits. -/
def Value.IsShort : Value → Prop
  | .integer _ => True
  | .bytes payload => payload.length < UInt64.size

theorem tag_lt (f : Field) : f.tag < UInt64.size := by
  have : f.number.toNat < 4294967296 := f.number.toNat_lt
  unfold Field.tag integerType bytesType
  cases f.value <;> simp only [UInt64.size] <;> omega

/-- The tag tells the number and the wire type. -/
theorem tagNumber_tag (f : Field) : tagNumber (.ofNat f.tag) = f.number := by
  have hdiv : f.tag / 8 = f.number.toNat := by
    unfold Field.tag integerType bytesType
    cases f.value <;> simp only <;> omega
  unfold tagNumber
  rw [UInt64.toNat_ofNat', Nat.mod_eq_of_lt (tag_lt f), hdiv, UInt32.ofNat_toNat]

/-- What a field holds is read back, whatever follows. -/
theorem readValue_encode {f : Field} (h : f.value.IsShort) (rest : List UInt8) :
    readValue (f.tag % 8) f.number (f.value.encode ++ rest) = (.ok f.value, rest) := by
  unfold Field.tag
  cases hv : f.value with
  | integer n =>
    have htype : (f.number.toNat * 8 + integerType) % 8 = integerType := by
      simp [integerType]
    simp only [htype, readValue, ↓reduceIte, Value.encode]
    rw [Varint.read_encode n.toNat_lt]
    simp
  | bytes payload =>
    have htype : (f.number.toNat * 8 + bytesType) % 8 = bytesType := by
      simp [bytesType]
    have hshort : payload.length < UInt64.size := by
      rw [hv] at h
      exact h
    simp only [htype, readValue, Value.encode, List.append_assoc]
    rw [if_neg (by decide), if_pos trivial, Varint.read_encode hshort]
    simp [Nat.mod_eq_of_lt hshort]

/-- A field is read back, whatever follows. -/
theorem nextField_encodeField {f : Field} (h : f.value.IsShort) (rest : List UInt8) :
    nextField (encodeField f ++ rest) = (.ok (some f), rest) := by
  have hne : (encodeField f ++ rest).isEmpty = false := by
    have : Varint.encode f.tag ≠ [] := by
      unfold Varint.encode
      split <;> simp
    simp [encodeField, this]
  have htag : (UInt64.ofNat f.tag).toNat = f.tag := by
    rw [UInt64.toNat_ofNat', Nat.mod_eq_of_lt (tag_lt f)]
  have hnumber : f.tag / 8 < UInt32.size := by
    have : f.number.toNat < 4294967296 := f.number.toNat_lt
    unfold Field.tag integerType bytesType
    cases f.value <;> simp only [UInt32.size] <;> omega
  unfold nextField
  rw [hne, if_neg Bool.false_ne_true, encodeField, List.append_assoc, Varint.read_encode (tag_lt f)]
  simp only [htag, hnumber, ↓reduceIte, tagNumber_tag]
  rw [readValue_encode h]

/-- The fields of a written record are read back. -/
theorem decode_encode {fields : List Field} (h : ∀ f ∈ fields, f.value.IsShort) :
    decode (encode fields) = .ok fields := by
  induction fields with
  | nil =>
    rw [decode.eq_def]
    split <;> rename_i hn <;> cases hn
    rfl
  | cons f fields ih =>
    have hfield : nextField (encode (f :: fields)) = (.ok (some f), encode fields) :=
      nextField_encodeField (h f List.mem_cons_self) _
    rw [decode.eq_def]
    split <;> rename_i hn <;> cases hn.symm.trans hfield
    rw [ih fun g hg => h g (List.mem_cons_of_mem _ hg)]
    rfl

/-- A payload is no longer than the record it stands in. -/
theorem length_payload_le {fields : List Field} {f : Field} (hf : f ∈ fields) {payload : List UInt8}
    (hv : f.value = .bytes payload) : payload.length ≤ (encode fields).length := by
  induction fields with
  | nil => cases hf
  | cons g fields ih =>
    have hlen :
        (encode (g :: fields)).length = (encodeField g).length + (encode fields).length := by
      simp [encode]
    rcases List.mem_cons.1 hf with rfl | hf
    · rw [hlen, encodeField, hv, Value.encode, List.length_append, List.length_append]
      omega
    · have := ih hf
      omega

/-- The fields of a record that is not too long are short. -/
theorem isShort_of_length {fields : List Field} (h : (encode fields).length < UInt64.size)
    {f : Field} (hf : f ∈ fields) : f.value.IsShort := by
  cases hv : f.value with
  | integer n => trivial
  | bytes payload => exact Nat.lt_of_le_of_lt (length_payload_le hf hv) h

end Record

end QueryResults
