import Mathlib.Order.Monotone.Basic
import QueryResults.Pacing

/-!
# Growing waits and their formula

Growing waits are meant to be `initial`, multiplied by the factor once for every wait before, and
never more than `max`. They are computed in bounded numbers, and where a number leaves its bounds
another takes its place: the largest multiplier for a power of more than 32 bits, and the cap for a
product beyond the longest span. The second replacement is always right, as no cap is beyond the
longest span. The first is not: a short first wait under a high cap stops growing below the cap.

## Main definitions

* `Pacing.power`: the power of the factor, without bounds.
* `Pacing.ideal`: the wait that the formula gives.

## Main results

* `Pacing.nanos_delay_growing_of_le`: the wait that is computed, as one formula.
* `Pacing.delay_eq_ideal_iff`: where it is the wait of the formula. Elsewhere it is too short.
* `Pacing.delay_mono`, `Pacing.delay_le_max`: growing waits never become shorter, and the cap holds.
* `Pacing.delay_min_count`: numbering the waits in 32 bits changes none of them.
-/

namespace QueryResults.Pacing

/-- The power by which the first wait is multiplied at the wait numbered `n`, a factor below one
counting as one. -/
def power (factor : UInt32) (n : Nat) : Nat := Nat.pow (max factor.toNat 1) n

/-- The wait numbered `n` by the formula: `initial` times the power, and at most `max`. -/
def ideal (initial : Duration) (factor : UInt32) (max : Duration) (n : Nat) : Duration :=
  ⟨min (initial.nanos * power factor n) max.nanos⟩

variable {initial cap : Duration} {factor : UInt32} {n : Nat}

/-! ### The multiplier -/

theorem power_le_power (factor : UInt32) {m n : Nat} (h : m ≤ n) :
    power factor m ≤ power factor n :=
  Nat.pow_le_pow_right (Nat.le_max_right _ _) h

/-- From the wait numbered 32 on the power of a factor above one needs more than 32 bits. -/
theorem maxMultiplier_lt_power (hfactor : 1 < factor.toNat) (hn : 32 ≤ n) :
    maxMultiplier < power factor n :=
  calc maxMultiplier < Nat.pow 2 32 := by decide
    _ ≤ Nat.pow 2 n := Nat.pow_le_pow_right (by decide) hn
    _ ≤ power factor n := Nat.pow_le_pow_left (Nat.le_trans hfactor (Nat.le_max_left _ _)) n

/-- The multiplier is the power, as far as 32 bits go. -/
theorem multiplier_eq_min (factor : UInt32) (n : Nat) :
    multiplier factor n = min (power factor n) maxMultiplier := by
  unfold multiplier
  split
  next hfactor =>
    have hpower : power factor n = 1 := by
      rw [power, Nat.max_eq_right hfactor]
      exact Nat.one_pow n
    rw [hpower]
    rfl
  next hfactor =>
    have hlt : 1 < factor.toNat := Nat.lt_of_not_le hfactor
    split
    next hn => exact (Nat.min_eq_right (maxMultiplier_lt_power hlt hn).le).symm
    next => rw [power, Nat.max_eq_left hlt.le]

theorem multiplier_mono (factor : UInt32) {m n : Nat} (h : m ≤ n) :
    multiplier factor m ≤ multiplier factor n := by
  rw [multiplier_eq_min, multiplier_eq_min]
  have := power_le_power factor h
  omega

/-- The multiplier no longer changes once 32 bits cannot number the waits. -/
theorem multiplier_min_count (factor : UInt32) (n : Nat) :
    multiplier factor (min n (UInt32.size - 1)) = multiplier factor n := by
  have hbits : 32 ≤ UInt32.size - 1 := by decide
  unfold multiplier
  rcases Nat.le_total n (UInt32.size - 1) with h | h
  · rw [Nat.min_eq_left h]
  · rw [Nat.min_eq_right h, if_pos hbits, if_pos (Nat.le_trans hbits h)]

/-! ### The waits -/

/-- The product is cut at the cap, and the cap stands for a product beyond the longest span. -/
theorem nanos_delay_growing (initial cap : Duration) (factor : UInt32) (n : Nat) :
    ((growing initial factor cap).delay n).nanos =
      if initial.nanos * multiplier factor n ≤ Duration.longest.nanos then
        min (initial.nanos * multiplier factor n) cap.nanos
      else cap.nanos := by
  rw [Nat.mul_comm]
  exact apply_ite Duration.nanos _ _ _

/-- Under a cap that can be represented the product is cut at the cap in any case. -/
theorem nanos_delay_growing_of_le (hcap : cap.nanos ≤ Duration.longest.nanos) :
    ((growing initial factor cap).delay n).nanos =
      min (initial.nanos * min (power factor n) maxMultiplier) cap.nanos := by
  rw [nanos_delay_growing, multiplier_eq_min]
  split <;> omega

/-- Growing waits never exceed their cap. -/
theorem delay_le_max (initial cap : Duration) (factor : UInt32) (n : Nat) :
    ((growing initial factor cap).delay n).nanos ≤ cap.nanos := by
  rw [nanos_delay_growing]
  split <;> omega

/-- No wait is shorter than the one before. -/
theorem delay_mono (pacing : Pacing) : Monotone fun n => (pacing.delay n).nanos := by
  intro m n h
  cases pacing with
  | fixed span => exact Nat.le_refl _
  | growing initial factor cap =>
    have hproduct := Nat.mul_le_mul_left initial.nanos (multiplier_mono factor h)
    simp only [nanos_delay_growing]
    split <;> split <;> omega

/-- A counter of 32 bits that stays at its largest number gives the same waits. -/
theorem delay_min_count (pacing : Pacing) (n : Nat) :
    pacing.delay (min n (UInt32.size - 1)) = pacing.delay n := by
  cases pacing with
  | fixed span => rfl
  | growing initial factor cap => simp only [delay, multiplier_min_count]

/-- A growing wait is the one of the formula if and only if the power fits into 32 bits, there is
nothing to multiply, or the largest multiplier reaches the cap. Otherwise it is too short: it stays
at the first wait times the largest multiplier. -/
theorem delay_eq_ideal_iff (initial : Duration) (factor : UInt32) (cap : Duration) (n : Nat)
    (hcap : cap.nanos ≤ Duration.longest.nanos) :
    ((growing initial factor cap).delay n = ideal initial factor cap n ↔
      power factor n ≤ maxMultiplier ∨ initial = .zero ∨
        cap.nanos ≤ initial.nanos * maxMultiplier) ∧
    ((growing initial factor cap).delay n ≠ ideal initial factor cap n →
      (growing initial factor cap).delay n = ⟨initial.nanos * maxMultiplier⟩ ∧
        ((growing initial factor cap).delay n).nanos < (ideal initial factor cap n).nanos) := by
  simp only [ne_eq, ← Duration.nanos_inj, nanos_delay_growing_of_le hcap, ideal, Duration.zero]
  rcases Nat.eq_zero_or_pos initial.nanos with hzero | hpos
  · simp [hzero]
  rcases Nat.lt_or_ge maxMultiplier (power factor n) with hover | hfits
  · -- The power leaves the 32 bits, so the ideal wait has one more first wait in it at least.
    have hproduct : initial.nanos * maxMultiplier + initial.nanos ≤
        initial.nanos * power factor n := by
      rw [← Nat.mul_succ]
      exact Nat.mul_le_mul_left _ hover
    rw [Nat.min_eq_right hover.le]
    constructor <;> omega
  · rw [Nat.min_eq_left hfits]
    simp [hfits]

/-- A wait of a millisecond, doubled forty times, is cut at a minute as it should be. -/
theorem delay_eq_ideal_iff_minute :
    (Duration.ofSeconds 60).nanos ≤ Duration.longest.nanos ∧
      ¬ power 2 40 ≤ maxMultiplier ∧
      (growing (.ofMillis 1) 2 (.ofSeconds 60)).delay 40 =
        ideal (.ofMillis 1) 2 (.ofSeconds 60) 40 := by
  have hcap : (Duration.ofSeconds 60).nanos ≤ Duration.longest.nanos := by decide
  have hreached : (Duration.ofSeconds 60).nanos ≤
      (Duration.ofMillis 1).nanos * maxMultiplier := by decide
  exact ⟨hcap, by decide, (delay_eq_ideal_iff _ _ _ _ hcap).1.2 (.inr (.inr hreached))⟩

/-- A wait of a nanosecond, doubled thirty-three times, stops short of its eight seconds and a half,
below a cap of ten. -/
theorem delay_ne_ideal :
    (growing ⟨1⟩ 2 (.ofSeconds 10)).delay 33 = ⟨4294967295⟩ ∧
      ideal ⟨1⟩ 2 (.ofSeconds 10) 33 = ⟨8589934592⟩ ∧
      (growing ⟨1⟩ 2 (.ofSeconds 10)).delay 33 ≠ ideal ⟨1⟩ 2 (.ofSeconds 10) 33 := by
  decide

end QueryResults.Pacing
