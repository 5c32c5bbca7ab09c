/-!
# Durations

A span of time in whole nanoseconds, with the text shown in messages: the largest of seconds,
milliseconds, microseconds and nanoseconds that gives an integer part of at least one, followed by
the decimals without trailing zeros.

## Main definitions

* `Duration`, `Duration.ofSeconds`, `Duration.ofMillis`.
* `Duration.longest`: the longest span that can be represented.
* `Duration.text`: the text shown in messages.
-/

namespace QueryResults

/-- A span of time in nanoseconds. -/
structure Duration where
  nanos : Nat
  deriving DecidableEq, Repr

namespace Duration

/-- The empty span. -/
def zero : Duration := ⟨0⟩

/-- A span of whole seconds. -/
def ofSeconds (n : Nat) : Duration := ⟨n * 1000000000⟩

/-- A span of whole milliseconds. -/
def ofMillis (n : Nat) : Duration := ⟨n * 1000000⟩

/-- The span in whole milliseconds, the rest of a millisecond cut off. -/
def toMillis (d : Duration) : Nat := d.nanos / 1000000

/-- The span in milliseconds, the rest of a millisecond counted as a whole one. -/
def ceilMillis (d : Duration) : Nat := (d.nanos + 999999) / 1000000

/-- The longest span: a 64-bit count of seconds and one nanosecond less than a second. -/
def longest : Duration := ⟨UInt64.size * 1000000000 - 1⟩

/-- A span repeated `n` times. -/
def scale (n : Nat) (d : Duration) : Duration := ⟨n * d.nanos⟩

theorem nanos_inj {d e : Duration} : d.nanos = e.nanos ↔ d = e := by
  cases d
  cases e
  simp

@[simp] theorem toMillis_ofMillis (n : Nat) : (ofMillis n).toMillis = n := by
  simp [ofMillis, toMillis]

@[simp] theorem ceilMillis_ofMillis (n : Nat) : (ofMillis n).ceilMillis = n := by
  simp only [ofMillis, ceilMillis]
  omega

/-- The decimals of a fraction that is written as `rest` with `width` digits, without trailing
zeros: a point and at least one digit, or nothing if the fraction is zero. -/
def decimals (rest width : Nat) : String :=
  if rest = 0 then ""
  else
    let digits := Nat.toDigits 10 rest
    let padded := List.replicate (width - digits.length) '0' ++ digits
    "." ++ String.ofList (padded.reverse.dropWhile (· == '0')).reverse

/-- The text of a span: integer part and decimals in the largest fitting unit. -/
def text (d : Duration) : String :=
  let n := d.nanos
  if n ≥ 1000000000 then toString (n / 1000000000) ++ decimals (n % 1000000000) 9 ++ "s"
  else if n ≥ 1000000 then toString (n / 1000000) ++ decimals (n % 1000000) 6 ++ "ms"
  else if n ≥ 1000 then toString (n / 1000) ++ decimals (n % 1000) 3 ++ "µs"
  else toString n ++ "ns"

example : (ofMillis 1500).text = "1.5s" := by cbv
example : (ofMillis 80).text = "80ms" := by cbv
example : (ofMillis 61234).text = "61.234s" := by cbv
example : (⟨1000050⟩ : Duration).text = "1.00005ms" := by cbv
example : zero.text = "0ns" := by cbv

end Duration

end QueryResults
