import LoadFeedback.Time

/-!
Pacing of small windows on long paths. A window of at most `2 ^ n` packets is spread over a round
trip in `2 ^ n` equal intervals; where these are too short for the timers to help, the window is sent
as a burst.
-/

namespace LoadFeedback

/-- When a sender paces its window. -/
structure Pacer where
  /-- Whether the sender paces at all. -/
  enabled : Bool
  /-- Intervals up to this one are not paced. -/
  shortest : Span
  deriving DecidableEq, Repr

namespace Pacer

/-- The largest window that is paced, in packets. -/
def maxWindow : Nat := 64

/-- The pacer of a sender whose links measure over the given interval: intervals up to half of it
are not paced. -/
def start (α : Type) [Scalar α] (enabled : Bool) (linkInterval : Span) : Pacer where
  enabled := enabled
  shortest := Span.roundTo α timerGranule .down (linkInterval / 2)

variable {α : Type} [Scalar α]

/-- The part of a round trip between two packets of a window, for windows of two packets or more up
to the largest paced one. -/
def bucketInterval? (window : α) (roundTrip : Span) : Option Span :=
  let packets := Scalar.floor window
  if packets ≤ 1 ∨ maxWindow < packets then none
  else some (roundTrip / packets.nextPowerOfTwo)

/-- The interval between two paced packets, or none where the window is sent as a burst. -/
def interval? (p : Pacer) (window : α) (roundTrip : Span) : Option Span :=
  if p.enabled then
    match bucketInterval? window roundTrip with
    | some interval =>
      if p.shortest < interval then
        some (max (Span.roundTo α timerGranule .down interval) timerGranule)
      else none
    | none => none
  else none

end Pacer

end LoadFeedback
