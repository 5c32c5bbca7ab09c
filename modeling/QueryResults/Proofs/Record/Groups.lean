import QueryResults.Proofs.Record.Written

/-!
# The groups of a number

The bytes of a number are ten at most, all but the last with their high bit set, and they stand for
the sum of their low seven bits times powers of 128. Ten groups have room for 70 bits, of which a
number keeps 64: the sum is read exactly if and only if there are less than ten groups, or the tenth
is 0 or 1. A larger tenth group is not refused, and what does not fit is lost. Where the input does
not begin with the bytes of a number, it is refused as malformed.

## Main definitions

* `Varint.groupSum`: the sum that groups stand for.

## Main results

* `Varint.isNumber_iff`, `Varint.value_eq_groupSum`: the bytes of a number and their sum.
* `Varint.groupSum_lt_size_iff`: when the sum fits into 64 bits.
* `Varint.read_low_bits`: what is read of any input.
* `Varint.read_overflows`: a number that is read as another one.
-/

namespace QueryResults.Varint

variable {limit : Nat} {bytes groups front rest : List UInt8} {b last : UInt8}

/-- The sum that groups stand for, the least significant first. -/
def groupSum (groups : List UInt8) : Nat :=
  ((groups.map fun b => b.toNat % 128).mapIdx fun i d => d * 128 ^ i).sum

theorem announcesMore_iff : announcesMore b = true ↔ 128 ≤ b.toNat := by
  rw [announcesMore, decide_eq_true_iff, UInt8.le_iff_toNat_le]
  rfl

theorem announcesMore_eq_false_iff : announcesMore b = false ↔ b.toNat < 128 := by
  rw [← Bool.not_eq_true, announcesMore_iff, Nat.not_le]

/-- The bytes of a number: so many at most, all but the last with their high bit set. -/
theorem isNumber_iff : IsNumber limit groups ↔
    ∃ front last, groups = front ++ [last] ∧ front.length < limit ∧ (∀ b ∈ front, 128 ≤ b.toNat) ∧
      last.toNat < 128 := by
  constructor
  · intro h
    induction h with
    | last hb => exact ⟨[], _, rfl, Nat.succ_pos _, by simp, announcesMore_eq_false_iff.1 hb⟩
    | more hb _ ih =>
      obtain ⟨front, last, rfl, hlength, hfront, hlast⟩ := ih
      exact ⟨_ :: front, last, rfl, Nat.succ_lt_succ hlength,
        List.forall_mem_cons.2 ⟨announcesMore_iff.1 hb, hfront⟩, hlast⟩
  · rintro ⟨front, last, rfl, hlength, hfront, hlast⟩
    induction front generalizing limit with
    | nil =>
      obtain ⟨limit, rfl⟩ := Nat.exists_eq_succ_of_ne_zero (Nat.ne_of_gt hlength)
      exact .last (announcesMore_eq_false_iff.2 hlast)
    | cons b front ih =>
      obtain ⟨limit, rfl⟩ :=
        Nat.exists_eq_succ_of_ne_zero (Nat.ne_of_gt (Nat.zero_lt_of_lt hlength))
      obtain ⟨hb, hfront⟩ := List.forall_mem_cons.1 hfront
      exact .more (announcesMore_iff.2 hb) (ih (Nat.lt_of_succ_lt_succ hlength) hfront)

/-! ### Sums -/

theorem value_eq_ofDigits (groups : List UInt8) :
    value groups = Nat.ofDigits 128 (groups.map groupBits) := by
  induction groups with
  | nil => rfl
  | cons b groups ih => rw [value, ih, List.map_cons, Nat.ofDigits_cons]

theorem value_eq_groupSum (groups : List UInt8) : value groups = groupSum groups := by
  rw [value_eq_ofDigits, Nat.ofDigits_eq_sum_mapIdx]
  rfl

theorem groupSum_append_singleton (front : List UInt8) (last : UInt8) :
    groupSum (front ++ [last]) = groupSum front + last.toNat % 128 * 128 ^ front.length := by
  simp [groupSum, List.mapIdx_append]

theorem groupSum_lt (groups : List UInt8) : groupSum groups < 128 ^ groups.length := by
  have hbits : ∀ d ∈ groups.map groupBits, d < 128 := by
    intro d hd
    obtain ⟨b, -, rfl⟩ := List.mem_map.1 hd
    exact Nat.mod_lt _ (by decide)
  rw [← value_eq_groupSum, value_eq_ofDigits, ← List.length_map groupBits]
  exact Nat.ofDigits_lt_base_pow_length (by decide) hbits

/-- Up to nine groups always fit into 64 bits, and of a tenth only the lowest bit does. -/
theorem groupSum_lt_size_iff (hlength : front.length < maxGroups) (hlast : last.toNat < 128) :
    groupSum (front ++ [last]) < UInt64.size ↔ front.length < 9 ∨ last.toNat ≤ 1 := by
  have hfront := groupSum_lt front
  rw [groupSum_append_singleton, Nat.mod_eq_of_lt hlast]
  rcases Nat.lt_or_ge front.length 9 with hshort | hlong
  · have hle : 128 ^ front.length ≤ 128 ^ 8 :=
      Nat.pow_le_pow_right (by decide) (Nat.le_of_lt_succ hshort)
    have hlt : last.toNat * 128 ^ front.length ≤ 127 * 128 ^ 8 :=
      Nat.mul_le_mul (Nat.le_of_lt_succ hlast) hle
    refine iff_of_true ?_ (.inl hshort)
    simp only [UInt64.size] at *
    omega
  · obtain hnine : front.length = 9 := Nat.le_antisymm (Nat.le_of_lt_succ hlength) hlong
    rw [hnine] at hfront ⊢
    simp only [UInt64.size] at *
    omega

/-! ### Reading -/

/-- The bytes of a number stand for the low 64 bits of their sum. -/
theorem spells_iff {n : UInt64} : Spells n groups ↔
    IsNumber maxGroups groups ∧ n.toNat = groupSum groups % UInt64.size := by
  have hvalue : .ofNat (value groups) = n ↔ n.toNat = groupSum groups % UInt64.size := by
    rw [← UInt64.toNat_inj, UInt64.toNat_ofNat', value_eq_groupSum, eq_comm]
  exact ⟨fun h => ⟨h.isNumber, hvalue.1 h.value_eq⟩, fun h => ⟨h.1, hvalue.2 h.2⟩⟩

theorem read_eq_ok_iff_groupSum {n : UInt64} : read bytes = (.ok n, rest) ↔
    ∃ front last, bytes = front ++ last :: rest ∧ front.length < 10 ∧
      (∀ b ∈ front, 128 ≤ b.toNat) ∧ last.toNat < 128 ∧
      n.toNat = groupSum (front ++ [last]) % UInt64.size := by
  rw [read_eq_ok_iff]
  constructor
  · rintro ⟨groups, hspells, rfl⟩
    obtain ⟨hnumber, hn⟩ := spells_iff.1 hspells
    obtain ⟨front, last, rfl, hlength, hfront, hlast⟩ := isNumber_iff.1 hnumber
    exact ⟨front, last, by simp, hlength, hfront, hlast, hn⟩
  · rintro ⟨front, last, rfl, hlength, hfront, hlast, hn⟩
    have hnumber := isNumber_iff.2 ⟨front, last, rfl, hlength, hfront, hlast⟩
    exact ⟨front ++ [last], spells_iff.2 ⟨hnumber, hn⟩, by simp⟩

/-- Reading is refused where no number is read. -/
theorem exists_error_of_read (h : ∀ n rest, read bytes ≠ (.ok n, rest)) :
    ∃ e rest, read bytes = (.error e, rest) := by
  rcases hread : read bytes with ⟨e | n, rest⟩
  · exact ⟨e, rest, rfl⟩
  · exact absurd hread (h n rest)

/-- A number is read from bytes that are ten at most, all but the last with their high bit set, and
is the low 64 bits of the sum they stand for: the sum itself if and only if there are less than ten
or the tenth is 0 or 1. All other input is refused as malformed data, where a field begins too. -/
theorem read_low_bits (bytes : List UInt8) :
    (∀ (n : UInt64) (rest : List UInt8), read bytes = (.ok n, rest) ↔
      ∃ front last, bytes = front ++ last :: rest ∧ front.length < 10 ∧
        (∀ b ∈ front, 128 ≤ b.toNat) ∧ last.toNat < 128 ∧
        n.toNat = groupSum (front ++ [last]) % UInt64.size ∧
        (n.toNat = groupSum (front ++ [last]) ↔ front.length < 9 ∨ last.toNat ≤ 1)) ∧
    ((¬∃ front last rest, bytes = front ++ last :: rest ∧ front.length < 10 ∧
        (∀ b ∈ front, 128 ≤ b.toNat) ∧ last.toNat < 128) →
      ∃ e rest, read bytes = (.error e, rest) ∧
        (Record.Fault.varint e).toFailure.kind = .data ∧
        (bytes ≠ [] → Record.nextField bytes = (.error (.varint e), rest))) := by
  refine ⟨fun n rest => read_eq_ok_iff_groupSum.trans ?_, fun hno => ?_⟩
  · refine exists_congr fun front => exists_congr fun last => ?_
    constructor
    · rintro ⟨hbytes, hlength, hfront, hlast, hn⟩
      refine ⟨hbytes, hlength, hfront, hlast, hn, ?_⟩
      rw [← groupSum_lt_size_iff hlength hlast, hn]
      exact ⟨fun h => h ▸ Nat.mod_lt _ (by decide), Nat.mod_eq_of_lt⟩
    · rintro ⟨hbytes, hlength, hfront, hlast, hn, -⟩
      exact ⟨hbytes, hlength, hfront, hlast, hn⟩
  · have hnone (n : UInt64) (rest : List UInt8) : read bytes ≠ (.ok n, rest) := by
      intro h
      obtain ⟨front, last, hbytes, hlength, hfront, hlast, -⟩ := read_eq_ok_iff_groupSum.1 h
      exact hno ⟨front, last, rest, hbytes, hlength, hfront, hlast⟩
    obtain ⟨e, rest, he⟩ := exists_error_of_read hnone
    refine ⟨e, rest, he, rfl, fun hne => ?_⟩
    rw [Record.nextField, if_neg (by simpa using hne), he]

/-- The number 300 is read from two groups, and a single byte that announces another is refused. -/
theorem read_low_bits_two : read [172, 2, 7] = (.ok 300, [7]) ∧
    ∃ e rest, read [128] = (.error e, rest) ∧ (Record.Fault.varint e).toFailure.kind = .data := by
  constructor
  · refine ((read_low_bits [172, 2, 7]).1 300 [7]).2
      ⟨[172], 2, rfl, by decide, by simp, by decide, rfl, ?_⟩
    exact iff_of_true rfl (.inl (by decide))
  · obtain ⟨e, rest, he, hkind, -⟩ := (read_low_bits [128]).2 (by
      rintro ⟨front, last, rest, hbytes, -, -, hlast⟩
      cases front with
      | nil =>
        obtain ⟨rfl, -⟩ := List.cons.inj hbytes
        exact absurd hlast (by decide)
      | cons b front => simp at hbytes)
    exact ⟨e, rest, he, hkind⟩

/-- Ten groups that stand for the first number beyond 64 bits. -/
def overflowing : List UInt8 := List.replicate 9 128 ++ [2]

/-- Here a sum of more than 64 bits is read as the number 0, and a field as one that holds it. -/
theorem read_overflows :
    groupSum overflowing = UInt64.size ∧ read overflowing = (.ok 0, []) ∧
      Record.nextField (8 :: overflowing) = (.ok (some ⟨1, .integer 0⟩), []) := by
  decide

end QueryResults.Varint
