import LoadFeedback.Decimal.Layout

/-!
Instants and spans as whole counts of nanoseconds. Timers only resolve granules, so a span that a
timer is to run for is first read to the nearest millisecond and then moved to a multiple of the
granule.
-/

namespace LoadFeedback

/-- Nanoseconds since an origin that all instants of a run share. -/
abbrev Instant := Nat

abbrev Span := Nat

namespace Span

variable {α : Type} [Scalar α]

/-- A number of milliseconds. -/
def millis (n : Nat) : Span := n * 1000000

def secs (n : Nat) : Span := n * 1000000000

/-- A span as a number of seconds: the whole seconds and the rest are read apart. -/
def seconds (s : Span) : α :=
  Scalar.ofNat (s / 1000000000) + Scalar.ofNat (s % 1000000000) / 1e9

/-- The nearest whole number of milliseconds. -/
def nearestMillis (α : Type) [Scalar α] (s : Span) : Nat :=
  Scalar.nearest ((seconds s : α) * 1000.0)

/-- A granule in whole milliseconds, at least one. -/
def granuleMillis (granule : Span) : Nat :=
  max (granule / 1000000) 1

/-- The remainder, in milliseconds, that is dropped even when rounding up: a fifth of the
granule. -/
def slackMillis (α : Type) [Scalar α] (granule : Span) : Nat :=
  Scalar.floor ((Scalar.ofNat (granuleMillis granule) : α) * 0.2)

/-- The direction in which a span is moved to a multiple of the granule. -/
inductive Rounding where
  /-- To the multiple below. -/
  | down
  /-- To the multiple above, unless less than a fifth of a granule is cut off; never to zero. -/
  | up
  deriving DecidableEq, Repr

/-- A span moved to a multiple of the granule, from its nearest millisecond. The milliseconds of the
multiple are taken without a bound: a machine word holds them where it holds one granule more than the
nearest millisecond. -/
def roundTo (α : Type) [Scalar α] (granule : Span) (rounding : Rounding) (s : Span) : Span :=
  let ms := nearestMillis α s
  let g := granuleMillis granule
  let extra := match rounding with
    | .down => 0
    | .up => if ms < g then 1 else if ms % g < slackMillis α granule then 0 else 1
  millis ((ms / g + extra) * g)

/-- Whole units and the rest of a span, without zeros at the end of the rest. -/
private def inUnits (unit places : Nat) (s : Span) : String :=
  let rest := (Decimal.digitsTo places (s % unit)).reverse.dropWhile (· = '0')
  let whole := String.ofList (Decimal.digits (s / unit))
  if rest.isEmpty then whole else whole ++ "." ++ String.ofList rest.reverse

/-- A span in the largest unit of which it holds at least one. -/
def text (s : Span) : String :=
  if 1000000000 ≤ s then inUnits 1000000000 9 s ++ "s"
  else if 1000000 ≤ s then inUnits 1000000 6 s ++ "ms"
  else if 1000 ≤ s then inUnits 1000 3 s ++ "µs"
  else inUnits 1 0 s ++ "ns"

end Span

/-- Instants go on without an end. A clock with 63 bits for its seconds shows those before this
one. -/
def clockHorizon : Instant := Span.secs (UInt64.size / 2)

def timerGranule : Span := Span.millis 10

/-- The round trip that the control laws are tuned to, assumed before the first measurement. -/
def typicalRoundTrip : Span := Span.millis 100

/-- The interval over which links measure their load, unless configured. -/
def defaultMeasurementInterval : Span := Span.millis 200

end LoadFeedback
