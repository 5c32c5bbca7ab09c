import QueryResults.Proofs.Record.RoundTrip

/-!
# Written forms of records

The bytes of a number may be more than it needs: a group of zeros at the end counts for nothing. So
a number, a field and a record have several written forms, of which encoding chooses the shortest.
Reading knows them all and nothing else: a record is read as some fields if and only if its bytes
are written forms of these fields, one after the other.

## Main definitions

* `Varint.IsNumber`, `Varint.Spells`: the written forms of a number.
* `Record.Value.IsWritten`, `Record.Field.IsWritten`: the written forms of a field.
* `Record.IsWritten`: the written forms of a record.

## Main results

* `Varint.read_eq_ok_iff`, `Record.nextField_eq_some_iff`: what a number and a field are read from.
* `Record.decode_eq_ok_iff`: what a record is read from.
-/

namespace QueryResults

namespace Varint

/-- The bytes of one number, at most `limit` of them: all but the last announce another. -/
inductive IsNumber : Nat → List UInt8 → Prop
  | last {limit : Nat} {b : UInt8} (hb : announcesMore b = false) : IsNumber (limit + 1) [b]
  | more {limit : Nat} {b : UInt8} {groups : List UInt8} (hb : announcesMore b = true)
      (h : IsNumber limit groups) : IsNumber (limit + 1) (b :: groups)

/-- The bytes of a number that stand for `n`. -/
structure Spells (n : UInt64) (groups : List UInt8) : Prop where
  isNumber : IsNumber maxGroups groups
  value_eq : .ofNat (value groups) = n

theorem IsNumber.ne_nil {limit : Nat} {groups : List UInt8} (h : IsNumber limit groups) :
    groups ≠ [] := by
  cases h <;> exact List.cons_ne_nil _ _

theorem Spells.ne_nil {n : UInt64} {groups : List UInt8} (h : Spells n groups) : groups ≠ [] :=
  h.isNumber.ne_nil

/-- A number is split off from its bytes, whatever follows. -/
theorem IsNumber.splitGroups_append {limit : Nat} {groups : List UInt8} (h : IsNumber limit groups)
    (rest : List UInt8) : splitGroups limit (groups ++ rest) = (.ok groups, rest) := by
  induction h with
  | last hb => simp [splitGroups, hb]
  | more hb _ ih => simp [splitGroups, hb, ih]

/-- What is split off is a number. -/
theorem isNumber_of_splitGroups {limit : Nat} {bytes groups rest : List UInt8}
    (h : splitGroups limit bytes = (.ok groups, rest)) :
    IsNumber limit groups ∧ bytes = groups ++ rest := by
  fun_induction splitGroups limit bytes generalizing groups rest with
  | case1 => cases h
  | case2 => cases h
  | case3 limit b bytes hb groups' rest' hs ih =>
    cases h
    obtain ⟨hnumber, rfl⟩ := ih hs
    exact ⟨.more hb hnumber, rfl⟩
  | case4 => cases h
  | case5 limit b bytes hb =>
    cases h
    exact ⟨.last (by simpa using hb), rfl⟩

/-- A number is read from the bytes that spell it, whatever follows, and from nothing else. -/
theorem read_eq_ok_iff {bytes rest : List UInt8} {n : UInt64} :
    read bytes = (.ok n, rest) ↔ ∃ groups, Spells n groups ∧ bytes = groups ++ rest := by
  constructor
  · intro h
    unfold read at h
    split at h
    · rename_i groups rest' hs
      cases h
      obtain ⟨hnumber, rfl⟩ := isNumber_of_splitGroups hs
      exact ⟨groups, ⟨hnumber, rfl⟩, rfl⟩
    · cases h
  · rintro ⟨groups, ⟨hnumber, rfl⟩, rfl⟩
    rw [read, hnumber.splitGroups_append]

end Varint

namespace Record

/-- The wire type of what a field holds. -/
def Value.wireType : Value → Nat
  | integer _ => integerType
  | bytes _ => bytesType

/-- The written forms of what a field holds. -/
inductive Value.IsWritten : Value → List UInt8 → Prop
  | integer {n : UInt64} {groups : List UInt8} (h : Varint.Spells n groups) :
      IsWritten (.integer n) groups
  | bytes {payload length : List UInt8} {n : UInt64} (h : Varint.Spells n length)
      (hn : n.toNat = payload.length) : IsWritten (.bytes payload) (length ++ payload)

/-- The written forms of a field: its tag, and what it holds. -/
inductive Field.IsWritten (f : Field) : List UInt8 → Prop
  | mk {tag value : List UInt8} (htag : Varint.Spells (.ofNat f.tag) tag)
      (hvalue : f.value.IsWritten value) : IsWritten f (tag ++ value)

/-- The written forms of a record: those of its fields, one after the other. -/
def IsWritten (fields : List Field) (bytes : List UInt8) : Prop :=
  ∃ pieces, List.Forall₂ Field.IsWritten fields pieces ∧ bytes = pieces.flatten

variable {bytes rest : List UInt8} {f : Field}

theorem Value.IsWritten.ne_nil {v : Value} (h : v.IsWritten bytes) : bytes ≠ [] := by
  cases h with
  | integer h => exact h.ne_nil
  | bytes h _ => exact List.append_ne_nil_of_left_ne_nil h.ne_nil _

theorem Field.IsWritten.ne_nil (h : f.IsWritten bytes) : bytes ≠ [] := by
  obtain ⟨htag, -⟩ := h
  exact List.append_ne_nil_of_left_ne_nil htag.ne_nil _

/-! ### Fields -/

theorem tag_eq (f : Field) : f.tag = f.number.toNat * 8 + f.value.wireType := by
  unfold Field.tag Value.wireType
  cases f.value <;> rfl

theorem wireType_lt (v : Value) : v.wireType < 8 := by
  cases v <;> simp [Value.wireType, integerType, bytesType]

/-- What a field holds is read from its written forms, whatever follows. -/
theorem Value.IsWritten.readValue_append {v : Value} (h : v.IsWritten bytes) (number : UInt32)
    (rest : List UInt8) : readValue v.wireType number (bytes ++ rest) = (.ok v, rest) := by
  cases h with
  | integer h =>
    rw [readValue, Value.wireType, if_pos rfl, Varint.read_eq_ok_iff.2 ⟨_, h, rfl⟩]
  | bytes h hn =>
    rw [readValue, Value.wireType, if_neg (by decide), if_pos rfl, List.append_assoc,
      Varint.read_eq_ok_iff.2 ⟨_, h, rfl⟩]
    simp [hn]

/-- What is read was written in front of what is left. -/
theorem isWritten_of_readValue {wireType : Nat} {number : UInt32} {v : Value}
    (h : readValue wireType number bytes = (.ok v, rest)) :
    wireType = v.wireType ∧ ∃ written, v.IsWritten written ∧ bytes = written ++ rest := by
  unfold readValue at h
  split at h
  · rename_i hw
    split at h
    · cases h
    · rename_i n rest' hr
      cases h
      obtain ⟨groups, hg, rfl⟩ := Varint.read_eq_ok_iff.1 hr
      exact ⟨hw, groups, .integer hg, rfl⟩
  · split at h
    · rename_i hw
      split at h
      · cases h
      · rename_i n rest' hr
        split at h
        · rename_i hle
          cases h
          obtain ⟨length, hl, rfl⟩ := Varint.read_eq_ok_iff.1 hr
          refine ⟨hw, _, .bytes hl (List.length_take_of_le hle).symm, ?_⟩
          rw [List.append_assoc, List.take_append_drop]
        · cases h
    · cases h

/-- A field is read from its written forms, whatever follows, and from nothing else. -/
theorem nextField_eq_some_iff :
    nextField bytes = (.ok (some f), rest) ↔
      ∃ written, f.IsWritten written ∧ bytes = written ++ rest := by
  constructor
  · intro h
    unfold nextField at h
    split at h
    · cases h
    · split at h
      · cases h
      · rename_i tag rest' hr
        split at h
        · rename_i hsize
          split at h
          · cases h
          · rename_i v rest'' hv
            cases h
            obtain ⟨groups, hg, rfl⟩ := Varint.read_eq_ok_iff.1 hr
            obtain ⟨htype, written, hw, rfl⟩ := isWritten_of_readValue hv
            have htag : tag = .ofNat (Field.tag ⟨tagNumber tag, v⟩) := by
              have hnumber : (tagNumber tag).toNat = tag.toNat / 8 :=
                UInt32.toNat_ofNat_of_lt' hsize
              rw [tag_eq, hnumber, ← htype, Nat.div_add_mod', UInt64.ofNat_toNat]
            exact ⟨groups ++ written, ⟨htag ▸ hg, hw⟩, (List.append_assoc _ _ _).symm⟩
        · cases h
  · rintro ⟨_, ⟨htag, hw⟩, rfl⟩
    have hlt := tag_lt f
    have hmod : f.tag % 8 = f.value.wireType := by
      have := wireType_lt f.value
      rw [tag_eq]
      omega
    have hsize : f.tag / 8 < UInt32.size := by
      have := wireType_lt f.value
      have := f.number.toNat_lt
      rw [tag_eq, UInt32.size]
      omega
    unfold nextField
    rw [if_neg (by simp [htag.ne_nil]), List.append_assoc,
      Varint.read_eq_ok_iff.2 ⟨_, htag, rfl⟩]
    simp only [UInt64.toNat_ofNat_of_lt' hlt, hsize, ↓reduceIte, hmod, tagNumber_tag]
    rw [hw.readValue_append]

/-! ### Records -/

theorem decode_nil : decode [] = .ok [] := by
  rw [decode.eq_def]
  split <;> rename_i h <;> cases h
  rfl

/-- The first field of a record, and the others. -/
theorem decode_of_nextField (h : nextField bytes = (.ok (some f), rest)) :
    decode bytes = (decode rest).map (f :: ·) := by
  rw [decode.eq_def]
  split <;> rename_i hn <;> cases hn.symm.trans h
  rfl

theorem decode_of_error {e : Fault} (h : nextField bytes = (.error e, rest)) :
    decode bytes = .error e := by
  rw [decode.eq_def]
  split <;> rename_i hn <;> cases hn.symm.trans h
  rfl

theorem eq_nil_of_nextField (h : nextField bytes = (.ok none, rest)) : bytes = [] := by
  unfold nextField at h
  split at h
  · rename_i hnil
    exact List.isEmpty_iff.1 hnil
  · split at h
    · cases h
    · split at h
      · split at h <;> cases h
      · cases h

/-- A field in front of a record. -/
theorem Field.IsWritten.decode_append (h : f.IsWritten bytes) (rest : List UInt8) :
    decode (bytes ++ rest) = (decode rest).map (f :: ·) :=
  decode_of_nextField (nextField_eq_some_iff.2 ⟨bytes, h, rfl⟩)

/-- Fields in front of a record. -/
theorem decode_flatten_append {fields : List Field} {pieces : List (List UInt8)}
    (h : List.Forall₂ Field.IsWritten fields pieces) (rest : List UInt8) :
    decode (pieces.flatten ++ rest) = (decode rest).map (fields ++ ·) := by
  induction h with
  | nil =>
    rw [List.flatten_nil, List.nil_append]
    cases decode rest <;> rfl
  | cons hf _ ih =>
    rw [List.flatten_cons, List.append_assoc, hf.decode_append, ih]
    cases decode rest <;> rfl

/-- A record is read as some fields if and only if it is a written form of them. -/
theorem decode_eq_ok_iff {fields : List Field} :
    decode bytes = .ok fields ↔ IsWritten fields bytes := by
  constructor
  · intro h
    fun_induction decode bytes generalizing fields with
    | case1 => cases h
    | case2 bytes rest hn =>
      cases h
      exact ⟨[], .nil, eq_nil_of_nextField hn⟩
    | case3 bytes f rest hn ih =>
      cases hd : decode rest with
      | error e =>
        rw [hd] at h
        cases h
      | ok others =>
        rw [hd] at h
        cases h
        obtain ⟨pieces, hp, rfl⟩ := ih hd
        obtain ⟨piece, hf, rfl⟩ := nextField_eq_some_iff.1 hn
        exact ⟨piece :: pieces, .cons hf hp, rfl⟩
  · rintro ⟨pieces, hp, rfl⟩
    have := decode_flatten_append hp []
    rw [List.append_nil, decode_nil] at this
    rw [this]
    exact congrArg Except.ok (List.append_nil fields)

/-- Bytes are a written form of one list of fields at most. -/
theorem IsWritten.unique {fields others : List Field} (h : IsWritten fields bytes)
    (h' : IsWritten others bytes) : fields = others :=
  Except.ok.inj ((decode_eq_ok_iff.2 h).symm.trans (decode_eq_ok_iff.2 h'))

end Record

end QueryResults
