/-!
# Variable-length integers

A 64-bit number is written in groups of seven bits, the least significant group first, one group a
byte; the high bit of a byte says that another group follows. A number has at most ten groups. Of
the tenth group only the lowest bit has a place in 64 bits; its other bits are not kept.

## Main definitions

* `Varint.encode`: the shortest written form of a number.
* `Varint.splitGroups`: the bytes of the first written number, and the rest.
* `Varint.value`: the number that groups stand for, without a bound.
* `Varint.read`: the number kept from the first written number, and the rest.
-/

namespace QueryResults.Varint

/-- The most bytes a number is written in. -/
def maxGroups : Nat := 10

/-- Why no number could be read. -/
inductive Fault where
  /-- The input ends inside a number. -/
  | incomplete
  /-- Ten bytes all announce another one. -/
  | tooLong
  deriving DecidableEq, Repr

/-- Whether a byte announces another group. -/
def announcesMore (b : UInt8) : Bool := 0x80 ≤ b

/-- The seven bits of a group. -/
def groupBits (b : UInt8) : Nat := b.toNat % 128

/-- Splits off the bytes of one written number, at most `limit` of them. The rest is what stands
behind the bytes looked at, also where no number is found. -/
def splitGroups : (limit : Nat) → List UInt8 → Except Fault (List UInt8) × List UInt8
  | 0, rest => (.error .tooLong, rest)
  | _ + 1, [] => (.error .incomplete, [])
  | limit + 1, b :: rest =>
    if announcesMore b then
      match splitGroups limit rest with
      | (.ok groups, rest) => (.ok (b :: groups), rest)
      | (.error e, rest) => (.error e, rest)
    else (.ok [b], rest)

/-- The number that groups stand for: the sum of the group bits times powers of 128. -/
def value : List UInt8 → Nat
  | [] => 0
  | b :: groups => groupBits b + 128 * value groups

/-- Reads the first written number and keeps 64 bits of it. -/
def read (bytes : List UInt8) : Except Fault UInt64 × List UInt8 :=
  match splitGroups maxGroups bytes with
  | (.ok groups, rest) => (.ok (.ofNat (value groups)), rest)
  | (.error e, rest) => (.error e, rest)

/-- The shortest written form of a number. -/
def encode (n : Nat) : List UInt8 :=
  if n < 128 then [.ofNat n] else .ofNat (n % 128 + 128) :: encode (n / 128)

theorem length_splitGroups_le (limit : Nat) (bytes : List UInt8) :
    (splitGroups limit bytes).2.length ≤ bytes.length := by
  fun_induction splitGroups limit bytes <;> simp_all <;> omega

theorem length_splitGroups_lt {limit : Nat} {bytes groups rest : List UInt8}
    (h : splitGroups limit bytes = (.ok groups, rest)) : rest.length < bytes.length := by
  match limit, bytes with
  | 0, _ => simp [splitGroups] at h
  | _ + 1, [] => simp [splitGroups] at h
  | limit + 1, b :: bytes =>
    have := length_splitGroups_le limit bytes
    simp only [splitGroups] at h
    split at h
    · split at h
      · rename_i hs
        simp only [hs] at this
        cases h
        simp only [List.length_cons]
        omega
      · cases h
    · cases h
      simp

/-- Reading a number consumes at least one byte. -/
theorem length_read_lt {bytes rest : List UInt8} {v : UInt64} (h : read bytes = (.ok v, rest)) :
    rest.length < bytes.length := by
  unfold read at h
  split at h
  · rename_i hs
    cases h
    exact length_splitGroups_lt hs
  · cases h

theorem length_read_le {bytes rest : List UInt8} {v : UInt64} (h : read bytes = (.ok v, rest)) :
    rest.length ≤ bytes.length := Nat.le_of_lt (length_read_lt h)

end QueryResults.Varint
