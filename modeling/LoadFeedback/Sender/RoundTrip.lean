import LoadFeedback.Time

/-!
The round trip of a flow, estimated from the echo of each new acknowledgment. Receivers answer at
once, so a sample is the path's delay and nothing else.
-/

namespace LoadFeedback

/-- What the samples so far say about the round trip. -/
structure RoundTrip where
  /-- What is assumed before the first sample. -/
  initial : Span
  latest : Span
  /-- The running average, once there is a sample. -/
  average : Option Span
  /-- The mean deviation from the average. -/
  variation : Span
  least : Span
  greatest : Span
  samples : Nat
  deriving DecidableEq, Repr

namespace RoundTrip

def start (initial : Span) : RoundTrip where
  initial := initial
  latest := initial
  average := none
  variation := initial / 2
  least := initial
  greatest := initial
  samples := 0

/-- The best estimate: the average, or the assumption before there is one. -/
def smoothed (r : RoundTrip) : Span :=
  r.average.getD r.latest

/-- The estimate that control laws use, never below what timers resolve. -/
def control (r : RoundTrip) : Span :=
  max r.smoothed timerGranule

def hasSample (r : RoundTrip) : Bool :=
  r.average.isSome

def deviation (a b : Span) : Span :=
  if b < a then a - b else b - a

/-- Takes a sample. The first one replaces the assumption; each later one moves the average by an
eighth and the variation by a quarter of the way. -/
def update (r : RoundTrip) (sample : Span) : RoundTrip :=
  match r.average with
  | none =>
    { r with
      latest := sample, average := some sample, variation := sample / 2
      least := sample, greatest := sample, samples := r.samples + 1 }
  | some average =>
    { r with
      latest := sample, average := some ((7 * average + sample) / 8)
      variation := (3 * r.variation + deviation average sample) / 4
      least := min r.least sample, greatest := max r.greatest sample
      samples := r.samples + 1 }

@[simp] theorem samples_update (r : RoundTrip) (sample : Span) :
    (r.update sample).samples = r.samples + 1 := by
  unfold update
  split <;> rfl

def reset (r : RoundTrip) : RoundTrip :=
  start r.initial

end RoundTrip

end LoadFeedback
