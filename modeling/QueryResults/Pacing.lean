import QueryResults.Duration

/-!
# Pacing of repeated checks

A pacing says how long to wait before a check is made again: always the same span, or a span that
grows by a factor with every check until it reaches a cap.

The growing span is computed in two bounded steps, as a multiplier of 32 bits and a span no longer
than `Duration.longest`: a power that needs more than 32 bits counts as the largest 32-bit number,
and a product beyond the longest span counts as the cap.

## Main definitions

* `Pacing`: the two ways to pace checks; `Pacing.standard` is the default.
* `Pacing.delay`: the span to wait after the given number of earlier waits.
-/

namespace QueryResults

/-- The waits between consecutive checks. -/
inductive Pacing where
  /-- Always the same span. -/
  | fixed (span : Duration)
  /-- A span that starts at `initial`, grows by `factor` and never exceeds `max`. -/
  | growing (initial : Duration) (factor : UInt32) (max : Duration)
  deriving DecidableEq, Repr

namespace Pacing

/-- The factor used where none is given. -/
def standardFactor : UInt32 := 2

/-- The cap used where none is given. -/
def standardCap : Duration := .ofSeconds 5

/-- A tenth of a second, doubled up to five seconds. -/
def standard : Pacing := .growing (.ofMillis 100) standardFactor standardCap

/-- Doubling from `initial` up to `max`. -/
def doubling (initial max : Duration) : Pacing := .growing initial standardFactor max

/-- The largest 32-bit number. -/
def maxMultiplier : Nat := UInt32.size - 1

/-- `max factor 1` to the power `n`, or `maxMultiplier` where that needs more than 32 bits. A factor
of two or more leaves the 32 bits by the 32nd power, so no larger power is ever computed. -/
def multiplier (factor : UInt32) (n : Nat) : Nat :=
  if factor.toNat ≤ 1 then 1
  else if 32 ≤ n then maxMultiplier
  else min (Nat.pow factor.toNat n) maxMultiplier

/-- The wait after the check numbered `n`, counted from zero. -/
def delay : Pacing → Nat → Duration
  | fixed span, _ => span
  | growing initial factor max, n =>
    let product := initial.scale (multiplier factor n)
    if product.nanos ≤ Duration.longest.nanos then ⟨min product.nanos max.nanos⟩ else max

end Pacing

end QueryResults
