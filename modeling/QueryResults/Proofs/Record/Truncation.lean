import QueryResults.Proofs.Record.Written

/-!
# Records that are cut off

The bytes of a record that come first tell nothing of how many follow, so a record that is cut off
between two fields is read as the fields in front of the cut. A cut anywhere else is always found:
in a tag, between a tag and its value, or in a number the input ends inside a number, as the last
byte announces another; and in a payload less is left than the payload's length says. Whatever
follows a record, on the other hand, changes nothing in what is read of it.

## Main definitions

* `Record.fieldEnd`: where fields end.

## Main results

* `Varint.read_of_cut`, `Record.nextField_of_cut`: numbers and fields that are cut off.
* `Record.decode_cut`: records that are cut off, and records that are continued.
-/

namespace QueryResults

/-- A cut through two parts is a cut through the first or one that leaves it whole. -/
theorem cut_cases {α : Type} {front back a b : List α} (h : front ++ back = a ++ b) :
    (∃ tail, tail ≠ [] ∧ a = front ++ tail) ∨ ∃ head, front = a ++ head ∧ head ++ back = b := by
  rcases List.append_eq_append_iff.1 h with ⟨tail, ha, hb⟩ | ⟨head, hf, hb⟩
  · cases tail with
    | nil => exact .inr ⟨[], by rw [ha, List.append_nil, List.append_nil], hb⟩
    | cons x tail => exact .inl ⟨x :: tail, List.cons_ne_nil _ _, ha⟩
  · exact .inr ⟨head, hf, hb.symm⟩

namespace Varint

/-- All bytes of a number but the last announce another, so where the last is missing the number is
incomplete. -/
theorem IsNumber.splitGroups_of_cut {limit : Nat} {groups front back : List UInt8}
    (h : IsNumber limit groups) (hcut : groups = front ++ back) (hback : back ≠ []) :
    splitGroups limit front = (.error .incomplete, []) := by
  induction h generalizing front with
  | last hb =>
    cases front with
    | nil => rfl
    | cons b' front =>
      obtain ⟨-, hnil⟩ := List.cons.inj hcut
      exact absurd (List.append_eq_nil_iff.1 hnil.symm).2 hback
  | more hb _ ih =>
    cases front with
    | nil => rfl
    | cons b' front =>
      obtain ⟨rfl, hgroups⟩ := List.cons.inj hcut
      rw [splitGroups, if_pos hb, ih hgroups]

/-- A number that is cut off is incomplete. -/
theorem read_of_cut {n : UInt64} {front back : List UInt8} (h : Spells n (front ++ back))
    (hback : back ≠ []) : read front = (.error .incomplete, []) := by
  rw [read, h.isNumber.splitGroups_of_cut rfl hback]

end Varint

namespace Record

variable {f : Field} {front back : List UInt8}

/-- What a field holds is not read where it is cut off. -/
theorem readValue_of_cut {v : Value} (h : v.IsWritten (front ++ back)) (hback : back ≠ [])
    (number : UInt32) : ∃ e rest, readValue v.wireType number front = (.error e, rest) := by
  generalize hw : front ++ back = written at h
  cases h with
  | integer h =>
    rw [readValue, Value.wireType, if_pos rfl, Varint.read_of_cut (hw ▸ h) hback]
    exact ⟨_, _, rfl⟩
  | bytes h hn =>
    rename_i payload length n
    rw [readValue, Value.wireType, if_neg (by decide), if_pos rfl]
    rcases cut_cases hw with ⟨tail, htail, rfl⟩ | ⟨head, rfl, rfl⟩
    · rw [Varint.read_of_cut h htail]
      exact ⟨_, _, rfl⟩
    · -- the length is whole, and larger than what is left
      have hlong : ¬n.toNat ≤ head.length := by
        have := List.length_pos_iff.2 hback
        rw [hn, List.length_append]
        omega
      rw [Varint.read_eq_ok_iff.2 ⟨_, h, rfl⟩]
      simp only [hlong, ↓reduceIte]
      exact ⟨_, _, rfl⟩

/-- A field is not read where it is cut off, unless nothing is left of it. -/
theorem nextField_of_cut (h : f.IsWritten (front ++ back)) (hfront : front ≠ [])
    (hback : back ≠ []) : ∃ e rest, nextField front = (.error e, rest) := by
  generalize hw : front ++ back = written at h
  obtain ⟨htag, hvalue⟩ := h
  unfold nextField
  rw [if_neg (by simpa using hfront)]
  rcases cut_cases hw with ⟨tail, htail, rfl⟩ | ⟨head, rfl, rfl⟩
  · rw [Varint.read_of_cut htag htail]
    exact ⟨_, _, rfl⟩
  · have hmod : f.tag % 8 = f.value.wireType := by
      have := wireType_lt f.value
      rw [tag_eq]
      omega
    rw [Varint.read_eq_ok_iff.2 ⟨_, htag, rfl⟩]
    simp only [UInt64.toNat_ofNat_of_lt' (tag_lt f), hmod]
    split
    · obtain ⟨e, rest, hr⟩ := readValue_of_cut hvalue hback (tagNumber (.ofNat f.tag))
      rw [hr]
      exact ⟨_, _, rfl⟩
    · exact ⟨_, _, rfl⟩

/-! ### Records -/

/-- Where the first `j` of some written fields end. -/
def fieldEnd (pieces : List (List UInt8)) (j : Nat) : Nat := (pieces.take j).flatten.length

theorem fieldEnd_cons (piece : List UInt8) (pieces : List (List UInt8)) (j : Nat) :
    fieldEnd (piece :: pieces) (j + 1) = piece.length + fieldEnd pieces j := by
  rw [fieldEnd, List.take_succ_cons, List.flatten_cons, List.length_append, fieldEnd]

variable {fields : List Field} {pieces : List (List UInt8)}

/-- Up to the end of a field all fields are read. -/
theorem decode_take_fieldEnd (h : List.Forall₂ Field.IsWritten fields pieces) (j : Nat) :
    decode (pieces.flatten.take (fieldEnd pieces j)) = .ok (fields.take j) := by
  have hsplit : pieces.flatten = (pieces.take j).flatten ++ (pieces.drop j).flatten := by
    rw [← List.flatten_append, List.take_append_drop]
  rw [hsplit, fieldEnd, List.take_left]
  exact decode_eq_ok_iff.2 ⟨_, List.forall₂_take j h, rfl⟩

/-- A cut is the end of a field, or it is found. -/
theorem fieldEnd_or_error (h : List.Forall₂ Field.IsWritten fields pieces) {k : Nat}
    (hk : k ≤ pieces.flatten.length) :
    (∃ j ≤ fields.length, k = fieldEnd pieces j) ∨
      (∀ j ≤ fields.length, k ≠ fieldEnd pieces j) ∧
        ∃ e, decode (pieces.flatten.take k) = .error e := by
  induction h generalizing k with
  | nil => exact .inl ⟨0, Nat.le_refl 0, Nat.le_zero.1 hk⟩
  | @cons f piece fields pieces hf _ ih =>
    rw [List.flatten_cons, List.length_append] at hk
    rcases Nat.eq_zero_or_pos k with rfl | hpos
    · exact .inl ⟨0, Nat.zero_le _, rfl⟩
    by_cases hlt : k < piece.length
    · refine .inr ⟨fun j _ => ?_, ?_⟩
      · cases j with
        | zero => exact Nat.ne_of_gt hpos
        | succ j =>
          rw [fieldEnd_cons]
          omega
      · have hcut : piece = piece.take k ++ piece.drop k := (List.take_append_drop k piece).symm
        have hfront : piece.take k ≠ [] := by
          rw [← List.length_pos_iff, List.length_take]
          omega
        have hback : piece.drop k ≠ [] := by
          rw [← List.length_pos_iff, List.length_drop]
          omega
        obtain ⟨e, rest, he⟩ := nextField_of_cut (hcut ▸ hf) hfront hback
        rw [List.flatten_cons, List.take_append_of_le_length (Nat.le_of_lt hlt)]
        exact ⟨e, decode_of_error he⟩
    · obtain ⟨k, rfl⟩ := Nat.exists_eq_add_of_le (Nat.le_of_not_lt hlt)
      rcases ih (Nat.le_of_add_le_add_left hk) with ⟨j, hj, rfl⟩ | ⟨hno, e, he⟩
      · exact .inl ⟨j + 1, Nat.succ_le_succ hj, (fieldEnd_cons _ _ _).symm⟩
      · refine .inr ⟨fun j hj => ?_, e, ?_⟩
        · cases j with
          | zero => exact Nat.ne_of_gt hpos
          | succ j =>
            rw [fieldEnd_cons]
            exact fun h => hno j (Nat.le_of_succ_le_succ hj) (Nat.add_left_cancel h)
        · rw [List.flatten_cons, List.take_length_add_append, hf.decode_append, he]
          rfl

/-- A record that is cut off is read if and only if the cut is the end of a field, and then as the
fields up to there; any other cut is a data failure. A record that is continued is read as its own
fields and those of what follows, and fails as what follows does. -/
theorem decode_cut {bytes : List UInt8} (h : decode bytes = .ok fields) :
    ∃ pieces, List.Forall₂ Field.IsWritten fields pieces ∧ bytes = pieces.flatten ∧
      (∀ k ≤ bytes.length,
        (∀ shown, decode (bytes.take k) = .ok shown ↔
          ∃ j ≤ fields.length, k = fieldEnd pieces j ∧ shown = fields.take j) ∧
        ((∀ j ≤ fields.length, k ≠ fieldEnd pieces j) →
          ∃ e, decode (bytes.take k) = .error e ∧ e.toFailure.kind = .data)) ∧
      ∀ more, decode (bytes ++ more) = (decode more).map (fields ++ ·) := by
  obtain ⟨pieces, hp, rfl⟩ := decode_eq_ok_iff.1 h
  refine ⟨pieces, hp, rfl, fun k hk => ⟨fun shown => ⟨fun hd => ?_, ?_⟩, fun hno => ?_⟩,
    decode_flatten_append hp⟩
  · rcases fieldEnd_or_error hp hk with ⟨j, hj, rfl⟩ | ⟨-, e, he⟩
    · rw [decode_take_fieldEnd hp] at hd
      exact ⟨j, hj, rfl, (Except.ok.inj hd).symm⟩
    · cases he.symm.trans hd
  · rintro ⟨j, -, rfl, rfl⟩
    exact decode_take_fieldEnd hp j
  · rcases fieldEnd_or_error hp hk with ⟨j, hj, hend⟩ | ⟨-, e, he⟩
    · exact absurd hend (hno j hj)
    · exact ⟨e, he, rfl⟩

/-- A number in a tag longer than needed, a payload of two bytes and an empty one. -/
def threeFields : List UInt8 :=
  [0xB8, 0x00, 0xAC, 0x02, 0x2A, 0x02, 0x61, 0x62, 0x32, 0x00]

/-- Continued by itself, the record is read as its fields twice. -/
theorem decode_cut_threeFields :
    decode threeFields =
        .ok [⟨7, .integer 300⟩, ⟨5, .bytes [0x61, 0x62]⟩, ⟨6, .bytes []⟩] ∧
      decode (threeFields ++ threeFields) =
        .ok [⟨7, .integer 300⟩, ⟨5, .bytes [0x61, 0x62]⟩, ⟨6, .bytes []⟩,
          ⟨7, .integer 300⟩, ⟨5, .bytes [0x61, 0x62]⟩, ⟨6, .bytes []⟩] := by
  have h : decode threeFields =
      .ok [⟨7, .integer 300⟩, ⟨5, .bytes [0x61, 0x62]⟩, ⟨6, .bytes []⟩] := by cbv
  obtain ⟨-, -, -, -, happend⟩ := decode_cut h
  refine ⟨h, ?_⟩
  rw [happend, h]
  rfl

end Record

end QueryResults
