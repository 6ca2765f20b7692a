import LoadFeedback.Link.Config
import LoadFeedback.Link.Reading
import LoadFeedback.Packet

/-!
A link measures its load. It counts the bytes that arrive, whether or not there is room for them,
and samples its queue; at the end of each interval both are turned into a utilisation, a load factor
against the target, and the feedback that is published until the next interval ends.
-/

namespace LoadFeedback

/-- The load measurement of one link. -/
structure Meter (α : Type) where
  /-- Over how long the load is measured. -/
  measurementInterval : Span
  /-- How often the queue length is sampled. -/
  samplingInterval : Span
  /-- How much of the steady queue counts as load. -/
  queueWeight : α
  /-- Whether codes are published, and not load factors. -/
  encode : Bool
  /-- Whether load factors are averaged over the intervals. -/
  smoothing : Bool
  /-- The utilisation that load factors are measured against. -/
  dynamicTarget : α
  /-- By how much that utilisation would be adjusted. -/
  targetStep : α
  /-- When the present interval began. -/
  intervalStart : Instant
  /-- The load so far. -/
  reading : Reading α
  timers : Timetable
  deriving DecidableEq, Repr

namespace Meter

variable {α : Type}

def name : String := "VCP-ROUTER"

/-- The largest count of bytes; larger sums stay there. -/
def maxCount : Nat := UInt64.size - 1

/-- Counts the bytes of an arriving packet. -/
def onArrival (m : Meter α) (size : Nat) : Meter α :=
  { m with reading := { m.reading with load := min maxCount (m.reading.load + size) } }

/-- Adds a sample of the queue, in bytes. -/
def sampleQueue (m : Meter α) (queueBytes : Nat) : Meter α :=
  { m with
    reading :=
      { m.reading with
        queueSum := min maxCount (m.reading.queueSum + queueBytes)
        queueSamples := m.reading.queueSamples + 1 } }

def stamp (m : Meter α) (p : Packet) : Packet :=
  p.stamped m.reading.feedback

def timeout? (m : Meter α) : Option Instant := m.timers.next?

/-- The deadline of one of the link's timers. -/
def deadline? (m : Meter α) (timer : Timer) : Option Instant := m.timers.deadline? timer

def close (m : Meter α) : Meter α := { m with timers := .empty }

variable [Scalar α]

/-- The weight of the newest value in running averages. -/
def gain : α := 0.25

/-- A running average moved towards a new value. -/
def blend (average value : α) : α :=
  average + gain * (value - average)

/-- The feedback before the first measurement: no load. -/
def idleFeedback (encode : Bool) : FeedbackField :=
  if encode then .initial else ⟨0⟩

def idle (encode : Bool) (capacity target : α) : Reading α where
  load := 0
  queueSum := 0
  queueSamples := 0
  steadyQueue := 0.0
  utilization := 0.0
  loadFactor := 0.0
  feedback := idleFeedback encode
  capacity := capacity
  target := target
  intervals := 0

def armed (m : Meter α) (now : Instant) : Timetable :=
  (Timetable.empty.setAfter .queueSampling now m.samplingInterval).setAfter
    .loadMeasurement now m.measurementInterval

/-- Forgets what was measured and begins an interval. The capacity and its target stay. -/
def reset (m : Meter α) (now : Instant) : Meter α :=
  { m with
    reading := idle m.encode m.reading.capacity m.reading.target
    dynamicTarget := m.reading.target
    intervalStart := now
    timers := m.armed now }

/-- The measurement of a link with the given settings and capacity, before its first interval
ends. -/
def start (config : LinkConfig α) (capacity : α) (now : Instant) : Meter α :=
  let target := Link.target capacity
  reset
    { measurementInterval := config.measurementInterval
      samplingInterval := config.samplingInterval
      queueWeight := config.queueWeight
      encode := config.encode
      smoothing := config.smoothing
      dynamicTarget := target
      targetStep := Link.targetStep target
      intervalStart := now
      reading := idle config.encode capacity target
      timers := .empty } now

/-- The measurement of a link, if the settings can be used. -/
def build (config : LinkConfig α) (now : Instant) : Except (ConfigFault α) (Meter α) :=
  config.validate.map fun capacity => start config capacity now

/-- Sets the capacity and the target that follows from it, if links of this capacity are
supported. -/
def setCapacity (m : Meter α) (capacity : α) : Except (ConfigFault α) Unit × Meter α :=
  if Link.isSupported capacity then
    let target := Link.target capacity
    (.ok (),
      { m with
        reading := { m.reading with capacity := capacity, target := target }
        dynamicTarget := target
        targetStep := Link.targetStep target })
  else (.error (.capacityOutOfRange capacity), m)

/-- The mean of the queue samples of this interval; zero without samples. -/
def meanQueue (m : Meter α) : α :=
  if 0 < m.reading.queueSamples then
    Scalar.ofNat m.reading.queueSum / Scalar.ofNat m.reading.queueSamples
  else 0.0

def publish (m : Meter α) (loadFactor : α) : FeedbackField :=
  if m.encode then .ofCode (.ofLoadFactor loadFactor) else .ofLoadFactor loadFactor

/-- The reading at the end of an interval of the given length, before its counts are cleared. -/
def evaluate (m : Meter α) (elapsed : Span) : Reading α :=
  let r := m.reading
  let steadyQueue := blend r.steadyQueue m.meanQueue
  let utilization :=
    8.0 * (Scalar.ofNat r.load + m.queueWeight * steadyQueue)
      / (r.capacity * Span.seconds elapsed)
  let latest := 100.0 * utilization / m.dynamicTarget
  let loadFactor := if m.smoothing then blend r.loadFactor latest else latest
  { r with
    steadyQueue := steadyQueue
    utilization := utilization
    loadFactor := loadFactor
    feedback := m.publish loadFactor
    intervals := r.intervals + 1 }

def elapsed (m : Meter α) (now : Instant) : Span := now - m.intervalStart

/-- Ends the interval, publishes its feedback and begins the next one. An interval without length
is refused and goes on. -/
def measure (m : Meter α) (now : Instant) : Attempt (Meter α) FeedbackField :=
  if m.elapsed now = 0 then (.error .emptyInterval, m)
  else
    let reading := m.evaluate (m.elapsed now)
    (.ok reading.feedback,
      { m with
        reading := { reading with load := 0, queueSum := 0, queueSamples := 0 }
        intervalStart := now
        timers := m.timers.setAfter .loadMeasurement now m.measurementInterval })

/-- Delivers a timer, with the length of the queue in bytes. -/
def onTimer (m : Meter α) (timer : Timer) (now : Instant) (queueBytes : Nat) :
    Attempt (Meter α) Unit :=
  match timer with
  | .queueSampling =>
    let m := m.sampleQueue queueBytes
    (.ok (), { m with timers := m.timers.setAfter .queueSampling now m.samplingInterval })
  | .loadMeasurement =>
    match m.measure now with
    | (.ok _, m) => (.ok (), m)
    | (.error fault, m) => (.error fault, m)
  | timer => (.error (.unusedByLink timer), m)

/-- Delivers those of the listed timers that are due when their turn comes, up to the first that is
refused. -/
def deliver (m : Meter α) (now : Instant) (queueBytes : Nat) :
    List Timer → Attempt (Meter α) Unit
  | [] => (.ok (), m)
  | timer :: rest =>
    if m.timers.isExpired timer now then
      match m.onTimer timer now queueBytes with
      | (.ok _, m) => m.deliver now queueBytes rest
      | (.error fault, m) => (.error fault, m)
    else m.deliver now queueBytes rest

/-- Delivers every timer that is due, with the length of the queue in bytes. -/
def onTimeout (m : Meter α) (now : Instant) (queueBytes : Nat) : Attempt (Meter α) Unit :=
  m.deliver now queueBytes [.queueSampling, .loadMeasurement]

end Meter

end LoadFeedback
