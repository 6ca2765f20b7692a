import LoadFeedback.Fault

/-!
How a sender sets its window. Setters accept anything that has a sensible reading; `validate` names
the first setting that cannot be used.
-/

namespace LoadFeedback

/-- The settings of a sender. -/
structure SenderConfig (α : Type) where
  /-- Over how long the links on the path measure their load. -/
  linkInterval : Span
  /-- The law that fits what the links publish. -/
  law : ControlLaw
  k : α
  alpha : α
  beta : α
  /-- The weight of the flow among others. -/
  weight : α
  /-- The window to start with, in packets. -/
  initialWindow : α
  maxWindow : Option α
  /-- Whether small windows on long paths are paced. -/
  pacing : Bool
  /-- Whether the additive increase is bounded by the window tables. -/
  limiter : Bool
  /-- Bytes of a data packet. -/
  packetSize : Nat
  deriving DecidableEq, Repr

namespace SenderConfig

variable {α : Type} [Scalar α]

/-- The settings that a sender has unless told otherwise. -/
def standard : SenderConfig α where
  linkInterval := defaultMeasurementInterval
  law := .coded
  k := 0.25
  alpha := 1.0
  beta := 0.875
  weight := 1.0
  initialWindow := 2.0
  maxWindow := none
  pacing := true
  limiter := false
  packetSize := 1000

/-- Sets the initial window, at least one packet. -/
def setInitialWindow (c : SenderConfig α) (packets : α) : SenderConfig α :=
  { c with initialWindow := Scalar.max packets 1.0 }

/-- Sets the size of data packets, at least one byte. -/
def setPacketSize (c : SenderConfig α) (bytes : Nat) : SenderConfig α :=
  { c with packetSize := max bytes 1 }

/-- Whether a value can be a gain: positive, and not beyond every number. -/
def isGain (x : α) : Bool :=
  Scalar.isFinite x && 0.0 < x

/-- Whether the largest window, if there is one, leaves room for the initial one. -/
def boundFault? (c : SenderConfig α) : Option (ConfigFault α) :=
  match c.maxWindow with
  | none => none
  | some bound => if c.initialWindow ≤ bound then none else some (.maxWindow bound)

def fault? (c : SenderConfig α) : Option (ConfigFault α) :=
  if c.linkInterval = 0 then some .zeroLinkInterval
  else if !(0.0 < c.beta && c.beta < 1.0) then some (.beta c.beta)
  else if !isGain c.k then some (.k c.k)
  else if !isGain c.alpha then some (.alpha c.alpha)
  else if !isGain c.weight then some (.weight c.weight)
  else if !(1.0 ≤ c.initialWindow : Bool) then some (.initialWindow c.initialWindow)
  else c.boundFault?

/-- Names the first setting that cannot be used. -/
def validate (c : SenderConfig α) : Except (ConfigFault α) Unit :=
  match c.fault? with
  | some fault => .error fault
  | none => .ok ()

end SenderConfig

end LoadFeedback
