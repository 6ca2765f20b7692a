import LoadFeedback.Packet
import LoadFeedback.Sender.Config
import LoadFeedback.Sender.Pacer
import LoadFeedback.Sender.Scaling

/-!
What both control laws keep: the window and how it came about, the terms of the round trip, and the
timers. The laws differ only in how feedback changes the window.
-/

namespace LoadFeedback

/-- The state of a window, under either law. -/
structure WindowState (α : Type) where
  config : SenderConfig α
  window : α
  /-- What the latest acknowledgment did. -/
  action : Action
  tally : Tally
  scaling : Scaling α
  /-- When the window is paced. -/
  pacer : Pacer
  timers : Timetable
  deriving DecidableEq, Repr

namespace WindowState

variable {α : Type} [Scalar α]

/-- The least window after a decrease, in packets. -/
def minWindow : α := 1.0

def start (config : SenderConfig α) : WindowState α where
  config := config
  window := config.initialWindow
  action := .increase
  tally := {}
  scaling := .start config.linkInterval
  pacer := .start α config.pacing config.linkInterval
  timers := .empty

/-- Returns to the initial window and forgets what was counted and measured. -/
def reset (s : WindowState α) : WindowState α :=
  { s with
    window := s.config.initialWindow, action := .increase, tally := {}
    scaling := s.scaling.reset, timers := .empty }

def close (s : WindowState α) : WindowState α :=
  { s with timers := .empty }

/-- The window held to the largest one, if there is one. -/
def bounded (s : WindowState α) (window : α) : α :=
  match s.config.maxWindow with
  | some bound => Scalar.min window bound
  | none => window

/-- The window moved by a change and held to the largest one. -/
def grow (s : WindowState α) (change : α) : WindowState α :=
  { s with window := s.bounded (s.window + change) }

/-- The term by which the window grows in about one round trip of acknowledgments. -/
def additiveTerm (s : WindowState α) : α :=
  s.scaling.factor * s.config.alpha * s.config.weight / s.window

/-- The terms of a newly estimated round trip. -/
def measured (s : WindowState α) (estimate : RoundTrip) : WindowState α :=
  { s with scaling := s.scaling.update estimate }

/-- Counts a packet if the pacing timer released it. -/
def sent (s : WindowState α) (paced : Bool) : WindowState α :=
  if paced then
    { s with tally := { s.tally with pacedPackets := s.tally.pacedPackets + 1 } }
  else s

/-- The interval between two paced packets, or none where the window is sent as a burst. -/
def pacingInterval? (s : WindowState α) : Option Span :=
  s.pacer.interval? s.window s.scaling.roundTrip

/-- Arms the pacing timer for the next packet, if the window is paced, and gives its deadline. -/
def pace (s : WindowState α) (now : Instant) : Option Instant × WindowState α :=
  match s.pacingInterval? with
  | none => (none, s)
  | some interval =>
    let timers := s.timers.setAfter .pacing now interval
    (timers.deadline? .pacing, { s with timers := timers })

end WindowState

end LoadFeedback
