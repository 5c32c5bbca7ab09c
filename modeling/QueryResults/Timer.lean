import QueryResults.Duration

/-!
# Timers

How long a sleep takes. An exact timer sleeps for the span it is asked for. The timer that waits are
timed with ticks in milliseconds: it wakes at the first tick that is not too early, and it sleeps
for no more than thirty years.

## Main definitions

* `Timer`, `Timer.exact`, `Timer.ticking`.

## Main results

* `Timer.lasts_ticking_ofMillis`: a span of whole milliseconds below the longest sleep is kept.
-/

namespace QueryResults

/-- A timer, known by the time that passes in a sleep of a given span. -/
structure Timer where
  lasts : Duration → Duration

namespace Timer

/-- Sleeps for exactly the span. -/
def exact : Timer := ⟨id⟩

/-- The longest sleep: thirty years of 365 days. -/
def longest : Duration := .ofSeconds (30 * 365 * 24 * 60 * 60)

/-- Sleeps until the first whole millisecond at or after the end of the span, and for the longest
sleep where the span is longer. -/
def ticking : Timer := ⟨fun span => .ofMillis (min span.ceilMillis longest.toMillis)⟩

@[simp] theorem lasts_exact (span : Duration) : exact.lasts span = span := rfl

theorem lasts_ticking_ofMillis {n : Nat} (h : n ≤ longest.toMillis) :
    ticking.lasts (.ofMillis n) = .ofMillis n := by
  simp [ticking, Nat.min_eq_left h]

example : ticking.lasts ⟨1500000⟩ = .ofMillis 2 := by decide
example : ticking.lasts .zero = .zero := by decide
example : ticking.lasts .longest = longest := by decide

end Timer

end QueryResults
