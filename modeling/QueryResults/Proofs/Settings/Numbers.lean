import Mathlib
import QueryResults.Proofs.Text.Numeral
import QueryResults.Settings.Property

/-!
# Numbers given as properties

The property of a numeric setting is accepted if its text is a numeral that denotes a number in
range, and refused as invalid otherwise. The setting is then what was written: the number itself or
a span of so many milliseconds, where a setting that cannot be zero takes a zero for a one.

All numbers are read as 64-bit numbers. Three settings have 32 bits only, and their keys make an
exception: of a number of 2^32 or more, which does not fit, they keep the low 32 bits instead of
refusing it.

## Main definitions

* `Key.held?`: the number a setting holds.
* `Key.Admits`: the numbers in the range of a key.
* `Key.raised`, `Key.unit`, `Key.low`: what is stored of a number.

## Main results

* `Key.exists_read`, `Key.admits_of_read`: which texts are read, and what is then stored.
* `Settings.setProperty_number`: setting a numeric property.
-/

namespace QueryResults

namespace Pacing

/-- The first wait. -/
def interval : Pacing → Duration
  | fixed span => span
  | growing initial _ _ => initial

/-- The cap, if the waits grow. -/
def cap? : Pacing → Option Duration
  | fixed _ => none
  | growing _ _ cap => some cap

/-- The factor, if the waits grow. -/
def factor? : Pacing → Option UInt32
  | fixed _ => none
  | growing _ factor _ => some factor

@[simp] theorem interval_withInterval (span : Duration) (p : Pacing) :
    (p.withInterval span).interval = span := by
  cases p <;> rfl

theorem cap?_withCap {p : Pacing} (h : p.cap?.isSome = true) (span : Duration) :
    (p.withCap span).cap? = some span := by
  cases p with
  | fixed _ => cases h
  | growing _ _ _ => rfl

theorem factor?_withFactor {p : Pacing} (h : p.factor?.isSome = true) (factor : UInt32) :
    (p.withFactor factor).factor? = some factor := by
  cases p with
  | fixed _ => cases h
  | growing _ _ _ => rfl

end Pacing

namespace Settings

open Numeral (Denotes)

namespace Key

/-- The number that the setting of a key holds, a span counted in nanoseconds. There is none if the
setting is not a number, or if it is one of growing waits and the waits do not grow. -/
def held? (s : Settings) : Key → Option Nat
  | pageSize => some s.reading.pageSize
  | pageTimeout => some s.reading.pageTimeout.nanos
  | pollInterval => some s.polling.interval.nanos
  | pollMaxInterval => s.polling.cap?.map Duration.nanos
  | pollFactor => s.polling.factor?.map UInt32.toNat
  | downloadRetries => some s.download.maxRetries.toNat
  | downloadRetryDelay => some s.download.retryDelay.nanos
  | chunkBuffer => some s.download.chunkBuffer.toNat
  | lowWatermark => some s.download.lowWatermark.toNat
  | readTimeout => some s.download.readTimeout.nanos
  | connectTimeout => some s.transport.connectTimeout.nanos
  | transportReadTimeout => some s.transport.readTimeout.nanos
  | transportRetries => some s.transport.maxRetries.toNat
  | _ => none

/-- The numbers in the range of a key. -/
def Admits (n : Nat) : Key → Prop
  | pageSize => 1 ≤ n ∧ n ≤ maxPageSize
  | _ => n < UInt64.size

/-- Whether a setting has 32 bits. -/
def isNarrow : Key → Bool
  | pollFactor | downloadRetries | transportRetries => true
  | _ => false

/-- What is left of a number in the bits of a setting. -/
def low (n : Nat) (key : Key) : Nat := if key.isNarrow then n % UInt32.size else n

/-- A number as it is written: zero is raised to one where a setting cannot be zero. -/
def raised (n : Nat) : Key → Nat
  | pollFactor | chunkBuffer => max n 1
  | _ => n

/-- What a number counts in: nanoseconds in a millisecond for a span, and one otherwise. -/
def unit : Key → Nat
  | pageTimeout | pollInterval | pollMaxInterval | downloadRetryDelay | readTimeout
  | connectTimeout | transportReadTimeout => 1000000
  | _ => 1

example : (all.filter fun key => (key.held? {}).isSome).length = 13 := by decide

theorem le_raised (key : Key) (n : Nat) : n ≤ key.raised n := by
  cases key <;> simp only [raised, Nat.le_refl, Nat.le_max_left]

theorem raised_lt (key : Key) {n : Nat} (h : n < UInt32.size) : key.raised n < UInt32.size := by
  have hone : 1 < UInt32.size := by decide
  cases key <;> simp only [raised, Nat.max_lt, h, hone, and_self]

/-- A number is stored as it is written if and only if it fits into the bits of the setting. -/
theorem raised_low_eq_iff (key : Key) (n : Nat) :
    key.raised (key.low n) = key.raised n ↔ (key.isNarrow = true → n < UInt32.size) := by
  unfold low
  split
  next hnarrow =>
    simp only [hnarrow, true_imp_iff]
    constructor
    · intro h
      calc n ≤ key.raised n := key.le_raised n
        _ = key.raised (n % UInt32.size) := h.symm
        _ < UInt32.size := key.raised_lt (Nat.mod_lt _ (by decide))
    · intro h
      rw [Nat.mod_eq_of_lt h]
  next hwide => exact iff_of_true rfl fun hnarrow => absurd hnarrow hwide

end Key

/-! ### Reading numbers -/

theorem readNumber_of_denotes {text : String} {n : Nat} (h : Denotes text n)
    (hn : n < UInt64.size) : readNumber text = .ok (.ofNat n) := by
  rw [readNumber, Numeral.read_of_denotes h hn]

theorem denotes_of_readNumber {text : String} {n : UInt64} (h : readNumber text = .ok n) :
    Denotes text n.toNat := by
  unfold readNumber at h
  split at h
  next m hread =>
    cases h
    exact Numeral.denotes_of_read hread
  next => cases h

theorem readMillis_of_denotes {text : String} {n : Nat} (h : Denotes text n)
    (hn : n < UInt64.size) : readMillis text = .ok (.ofMillis n) := by
  rw [readMillis, readNumber_of_denotes h hn]
  simp only [Except.map, UInt64.toNat_ofNat_of_lt' hn]

theorem readPageSize_of_denotes {text : String} {n : Nat} (h : Denotes text n)
    (hlow : 1 ≤ n) (hhigh : n ≤ maxPageSize) : readPageSize text = .ok n := by
  have hn : n < UInt64.size := Nat.lt_of_le_of_lt hhigh (by decide)
  have hrange : ¬ (n = 0 ∨ maxPageSize < n) := by omega
  rw [readPageSize, readNumber_of_denotes h hn]
  simp only [bind, Except.bind, UInt64.toNat_ofNat_of_lt' hn, if_neg hrange]

theorem denotes_of_readPageSize {text : String} {n : Nat} (h : readPageSize text = .ok n) :
    Denotes text n ∧ 1 ≤ n ∧ n ≤ maxPageSize := by
  unfold readPageSize at h
  cases hread : readNumber text with
  | error e => rw [hread] at h; cases h
  | ok m =>
    simp only [hread, bind, Except.bind] at h
    split at h
    next => cases h
    next hrange =>
      cases h
      exact ⟨denotes_of_readNumber hread, by omega, by omega⟩

theorem toNat_toUInt32_ofNat {n : Nat} (h : n < UInt64.size) :
    (UInt64.ofNat n).toUInt32.toNat = n % UInt32.size := by
  rw [UInt64.toNat_toUInt32, UInt64.toNat_ofNat_of_lt' h]

namespace Key

variable {key : Key} {s : Settings} {text : String}

/-- A text with a number in range is read, and the number is stored. -/
theorem exists_read {n : Nat} (hheld : (key.held? s).isSome = true) (h : Denotes text n)
    (hn : key.Admits n) :
    ∃ change, key.read text = .ok change ∧
      key.held? (change.apply s) = some (key.raised (key.low n) * key.unit) := by
  have millis : n < UInt64.size → ∀ f : Duration → Change,
      (readMillis text).map f = .ok (f (.ofMillis n)) := by
    intro hlt f
    rw [readMillis_of_denotes h hlt]
    rfl
  have number : n < UInt64.size → ∀ f : UInt64 → Change,
      (readNumber text).map f = .ok (f (.ofNat n)) := by
    intro hlt f
    rw [readNumber_of_denotes h hlt]
    rfl
  cases key with
  | pageSize =>
    refine ⟨.pageSize n, ?_, congrArg some (Nat.mul_one n).symm⟩
    rw [read, readPageSize_of_denotes h hn.1 hn.2]
    rfl
  | pageTimeout | downloadRetryDelay | readTimeout | connectTimeout | transportReadTimeout =>
    exact ⟨_, millis hn _, rfl⟩
  | pollInterval =>
    refine ⟨_, millis hn _, ?_⟩
    simp only [held?, Change.apply, Pacing.interval_withInterval]
    rfl
  | pollMaxInterval =>
    refine ⟨_, millis hn _, ?_⟩
    simp only [held?, Option.isSome_map] at hheld
    simp only [held?, Change.apply, Pacing.cap?_withCap hheld]
    rfl
  | pollFactor =>
    refine ⟨_, number hn _, ?_⟩
    simp only [held?, Option.isSome_map] at hheld
    simp only [held?, Change.apply, Pacing.factor?_withFactor hheld, Option.map_some,
      UInt32.toNat_max, toNat_toUInt32_ofNat hn]
    exact congrArg some (Nat.mul_one _).symm
  | downloadRetries | transportRetries =>
    refine ⟨_, number hn _, ?_⟩
    simp only [held?, Change.apply, toNat_toUInt32_ofNat hn]
    exact congrArg some (Nat.mul_one _).symm
  | chunkBuffer =>
    refine ⟨_, number hn _, ?_⟩
    simp only [held?, Change.apply, UInt64.toNat_max, UInt64.toNat_ofNat_of_lt' hn]
    exact congrArg some (Nat.mul_one _).symm
  | lowWatermark =>
    refine ⟨_, number hn _, ?_⟩
    simp only [held?, Change.apply, UInt64.toNat_ofNat_of_lt' hn]
    exact congrArg some (Nat.mul_one _).symm
  | endpoint | storeEndpoint | database | workgroup | output | backend | pollGrowing | logLevel
  | logFile => cases hheld

/-- A text that is read for a number has one in range. -/
theorem admits_of_read {change : Change} (hheld : (key.held? s).isSome = true)
    (h : key.read text = .ok change) : ∃ n, Denotes text n ∧ key.Admits n := by
  have number : ∀ {γ : Type} {f : UInt64 → γ} {z : γ}, (readNumber text).map f = .ok z →
      ∃ n, Denotes text n ∧ n < UInt64.size := by
    intro γ f z hmap
    obtain ⟨n, hread, -⟩ := exists_of_map_eq_ok hmap
    exact ⟨_, denotes_of_readNumber hread, n.toNat_lt⟩
  have millis : ∀ {f : Duration → Change} {z : Change}, (readMillis text).map f = .ok z →
      ∃ n, Denotes text n ∧ n < UInt64.size := by
    intro f z hmap
    obtain ⟨span, hread, -⟩ := exists_of_map_eq_ok hmap
    exact number hread
  cases key with
  | pageSize =>
    obtain ⟨n, hread, -⟩ := exists_of_map_eq_ok h
    exact ⟨n, denotes_of_readPageSize hread⟩
  | pageTimeout | pollInterval | pollMaxInterval | downloadRetryDelay | readTimeout
  | connectTimeout | transportReadTimeout => exact millis h
  | pollFactor | downloadRetries | chunkBuffer | lowWatermark | transportRetries => exact number h
  | endpoint | storeEndpoint | database | workgroup | output | backend | pollGrowing | logLevel
  | logFile => cases hheld

end Key

/-! ### Setting numbers -/

/-- A numeric setting, where there is one of its key, is set by every text that denotes a number in
the range of the key, and by no other: all others are refused as invalid. What it then holds is the
number as it is written, but for a number of 2^32 or more given to a setting of 32 bits. Of such a
number, which fits no such setting, the low 32 bits are kept. -/
theorem setProperty_number {key : Key} {s : Settings} (hheld : (key.held? s).isSome = true)
    (text : String) :
    (∀ n, Denotes text n → key.Admits n → ∃ s', s.setProperty key.name text = .ok s' ∧
      key.held? s' = some (key.raised (key.low n) * key.unit) ∧
      (key.raised (key.low n) = key.raised n ↔ (key.isNarrow = true → n < UInt32.size))) ∧
    ((∀ n, Denotes text n → ¬ key.Admits n) → ∃ e : Failure, e.kind = .invalidArgument ∧
      s.setProperty key.name text = .error e) := by
  constructor
  · intro n hdenotes hadmits
    obtain ⟨change, hread, hchanged⟩ := Key.exists_read hheld hdenotes hadmits
    refine ⟨change.apply s, ?_, hchanged, key.raised_low_eq_iff n⟩
    simp only [setProperty, readProperty_name, hread]
  · intro hnone
    cases hread : key.read text with
    | ok change =>
      obtain ⟨n, hdenotes, hadmits⟩ := Key.admits_of_read hheld hread
      exact absurd hadmits (hnone n hdenotes)
    | error e =>
      refine ⟨.invalidArgument (e.message key.name text), rfl, ?_⟩
      simp only [setProperty, readProperty_name, hread]

/-- Blanks, signs and leading zeros do not count, and a factor of zero is raised to one. -/
theorem setProperty_number_padded :
    (Key.pollFactor.held? {}).isSome = true ∧ Denotes " +00\n" 0 ∧
      ∃ s', Settings.setProperty {} "athena.poll.backoff_factor" " +00\n" = .ok s' ∧
        Key.pollFactor.held? s' = some 1 := by
  have hheld : (Key.pollFactor.held? {}).isSome = true := rfl
  have hread : Numeral.read " +00\n" = some 0 := by cbv
  have hdenotes : Denotes " +00\n" 0 := Numeral.denotes_of_read hread
  have hadmits : Key.pollFactor.Admits 0 := by
    change 0 < UInt64.size
    decide
  obtain ⟨s', hset, hs', -⟩ := (setProperty_number hheld " +00\n").1 0 hdenotes hadmits
  exact ⟨hheld, hdenotes, s', hset, hs'⟩

/-- A number of retries of 2^32 is taken for none at all. -/
theorem setProperty_number_cut :
    Denotes "4294967296" 4294967296 ∧
      Settings.setProperty {} "athena.fetch.max_retries" "4294967296" =
        .ok { download := { maxRetries := 0 } } := by
  have hread : Numeral.read "4294967296" = some 4294967296 := by cbv
  have hdenotes : Denotes "4294967296" 4294967296 := Numeral.denotes_of_read hread
  exact ⟨hdenotes, by cbv⟩

end Settings

end QueryResults
