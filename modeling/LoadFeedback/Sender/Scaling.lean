import LoadFeedback.Sender.RoundTrip

/-!
How the control laws depend on the round trip. Flows of different round trips are to reach the same
rate, so the additive increase grows with the square of the round trip, and the exponent of the
multiplicative increase with its ratio to the links' measurement interval.
-/

namespace LoadFeedback

/-- The terms by which a round trip scales the control laws. -/
structure Scaling (α : Type) where
  /-- The round trip of the terms. -/
  roundTrip : Span
  /-- Over how long the links measure their load. -/
  linkInterval : Span
  factor : α
  exponent : α
  deriving DecidableEq, Repr

namespace Scaling

variable {α : Type} [Scalar α]

def intervals (roundTrip linkInterval : Span) : α :=
  Span.seconds roundTrip / Span.seconds linkInterval

/-- The terms of the typical round trip. The exponent has no upper bound here. -/
def start (linkInterval : Span) : Scaling α where
  roundTrip := typicalRoundTrip
  linkInterval := linkInterval
  factor := 1.0
  exponent := intervals typicalRoundTrip linkInterval

/-- The factor of the additive increase for a multiple of the typical round trip: linear below a
fifth, the square up to five, and linear again beyond. -/
def factorOf (ratio : α) : α :=
  if ratio ≤ 0.2 then ratio * 0.2
  else if ratio ≤ 5.0 then ratio * ratio
  else (ratio - 5.0) + 5.0 * 5.0

def update (s : Scaling α) (estimate : RoundTrip) : Scaling α :=
  let roundTrip := estimate.control
  { s with
    roundTrip := roundTrip
    factor := factorOf (Span.seconds roundTrip / Span.seconds typicalRoundTrip)
    exponent := Scalar.min (intervals roundTrip s.linkInterval) 2.5 }

/-- Returns to the terms of the typical round trip. -/
def reset (s : Scaling α) : Scaling α :=
  start s.linkInterval

end Scaling

end LoadFeedback
