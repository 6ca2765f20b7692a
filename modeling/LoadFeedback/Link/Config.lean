import LoadFeedback.Fault
import LoadFeedback.Link.Target

/-!
How a link measures its load. Setters accept anything that has a sensible reading; `validate` names
the first setting that cannot be used.
-/

namespace LoadFeedback

/-- The settings of a link. -/
structure LinkConfig (α : Type) where
  /-- Over how long the load is measured. -/
  measurementInterval : Span
  /-- How often the queue length is sampled. -/
  samplingInterval : Span
  /-- How much of the steady queue counts as load. -/
  queueWeight : α
  /-- Bits per second; there is no default. -/
  capacity : Option α
  /-- Whether codes are published, and not load factors. -/
  encode : Bool
  /-- Whether load factors are averaged over the intervals. -/
  smoothing : Bool
  deriving DecidableEq, Repr

namespace LinkConfig

variable {α : Type} [Scalar α]

/-- The settings of a link whose capacity is not known yet. -/
def standard : LinkConfig α where
  measurementInterval := defaultMeasurementInterval
  samplingInterval := Span.millis 10
  queueWeight := 0.5
  capacity := none
  encode := true
  smoothing := false

/-- Sets the weight of the queue, moved into the range from zero to one. -/
def setQueueWeight (c : LinkConfig α) (weight : α) : LinkConfig α :=
  { c with queueWeight := Scalar.clamp 0.0 1.0 weight }

/-- Names the first setting that cannot be used, and gives the capacity if there is none. -/
def validate (c : LinkConfig α) : Except (ConfigFault α) α :=
  if c.measurementInterval = 0 then .error .zeroMeasurementInterval
  else if c.samplingInterval = 0 then .error .zeroSamplingInterval
  else if !Scalar.isFinite c.queueWeight || c.queueWeight < 0.0 then
    .error (.queueWeight c.queueWeight)
  else
    match c.capacity with
    | none => .error .capacityUnset
    | some capacity =>
      if Link.isSupported capacity then .ok capacity else .error (.capacityOutOfRange capacity)

end LinkConfig

end LoadFeedback
