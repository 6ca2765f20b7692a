import LoadFeedback.Decimal.Shortest
import LoadFeedback.Sender.Law
import LoadFeedback.Timer

/-!
What can go wrong, as causes: a configuration that cannot be used, and an operation that does not
fit the state or the input it is given. The wording of each cause is given once.
-/

namespace LoadFeedback

/-- The kind of a failure in a word, with what is known about it in brackets. -/
def described (kind detail : String) : String :=
  kind ++ "(" ++ detail ++ ")"

/-- A text in quotation marks. The texts of this library hold no characters to escape. -/
def quoted (text : String) : String :=
  "\"" ++ text ++ "\""

/-- Why an operation was refused. -/
inductive Fault where
  /-- The packet is of the wrong kind, or acknowledges what was never sent. -/
  | invalidPacket
  /-- A feedback field, or the byte that should hold it, is none of the three codes. -/
  | invalidFeedback (value : Nat)
  /-- There is no room for a header. -/
  | bufferTooShort
  /-- A hold-down timer ran out in a phase that did not arm it. -/
  | expiredInPhase (timer : Timer) (phase : HoldDownPhase)
  /-- A link has no such timer. -/
  | unusedByLink (timer : Timer)
  /-- The raw law has no such timer. -/
  | unusedByRawLaw (timer : Timer)
  /-- The measurement interval has no length yet. -/
  | emptyInterval
  deriving DecidableEq, Repr

namespace Fault

/-- The kind of a fault in a word. -/
def kind : Fault → String
  | .invalidPacket => "InvalidPacket"
  | .invalidFeedback _ => "InvalidFeedback"
  | .bufferTooShort => "BufferTooShort"
  | .expiredInPhase .. | .unusedByLink _ | .unusedByRawLaw _ | .emptyInterval => "InvalidState"

def message (f : Fault) : String :=
  match f with
  | .invalidPacket | .bufferTooShort => f.kind
  | .invalidFeedback value => described f.kind (toString value)
  | .expiredInPhase timer phase =>
    described f.kind (quoted (timer.name ++ " expired in phase " ++ phase.name))
  | .unusedByLink timer => described f.kind (quoted (timer.name ++ " is not used by VCP-ROUTER"))
  | .unusedByRawLaw timer => described f.kind (quoted (timer.name ++ " is not used by VCP-RAW"))
  | .emptyInterval => described f.kind (quoted "VCP-ROUTER. zero measurement interval")

end Fault

/-- The outcome of an operation that may be refused, beside the state that it leaves. -/
abbrev Attempt (σ β : Type) := Except Fault β × σ

/-- Why a configuration cannot be used. -/
inductive ConfigFault (α : Type) where
  /-- A link would measure over nothing. -/
  | zeroMeasurementInterval
  /-- A link would sample its queue all the time. -/
  | zeroSamplingInterval
  /-- The weight of the queue is negative, infinite or undefined. -/
  | queueWeight (weight : α)
  /-- The capacity of a link is not known. -/
  | capacityUnset
  /-- The capacity of a link is outside the supported range. -/
  | capacityOutOfRange (capacity : α)
  /-- A sender would expect links to measure over nothing. -/
  | zeroLinkInterval
  /-- The factor of a decrease is not between zero and one. -/
  | beta (value : α)
  /-- The gain of the multiplicative increase is not positive and finite. -/
  | k (value : α)
  /-- The gain of the additive increase is not positive and finite. -/
  | alpha (value : α)
  /-- The weight of the flow is not positive and finite. -/
  | weight (value : α)
  /-- The initial window is below one packet. -/
  | initialWindow (value : α)
  /-- The largest window is below the initial one. -/
  | maxWindow (value : α)
  /-- No control law has this name. -/
  | unknownControlLaw
  deriving DecidableEq, Repr

namespace ConfigFault

/-- The kind of a configuration fault in a word. -/
def kind : String := "InvalidConfig"

def detail : ConfigFault Float → String
  | .zeroMeasurementInterval => "zero measurement interval"
  | .zeroSamplingInterval => "zero sampling interval"
  | .queueWeight value => "queue weight " ++ Decimal.plain value
  | .capacityUnset => "link capacity unset"
  | .capacityOutOfRange value =>
    "link capacity " ++ Decimal.plain value ++ " bps out of range"
  | .zeroLinkInterval => "zero router measurement interval"
  | .beta value => "beta " ++ Decimal.plain value
  | .k value => "k " ++ Decimal.plain value
  | .alpha value => "alpha " ++ Decimal.plain value
  | .weight value => "w " ++ Decimal.plain value
  | .initialWindow value => "initial window " ++ Decimal.plain value
  | .maxWindow value => "max window " ++ Decimal.plain value
  | .unknownControlLaw => "unknown"

def message (f : ConfigFault Float) : String :=
  described kind (quoted f.detail)

end ConfigFault

end LoadFeedback
