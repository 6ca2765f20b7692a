import LoadFeedback.Link.DropTail
import LoadFeedback.Link.Meter

/-!
An output link: a queue that measures its own load. Packets count as load before the queue has seen
them, also those that it drops, and data packets are stamped as they leave. Any kind of queue will
do; which packets it drops is its own affair.
-/

namespace LoadFeedback

/-- What a link asks of its queue. -/
class PacketQueue (κ : Type) where
  /-- Offers a packet. The answer says whether the queue took it. -/
  enqueue : κ → Packet → Bool × κ
  /-- Takes out the packet whose turn it is. -/
  dequeue? : κ → Option (Packet × κ)
  /-- The bytes that are queued. -/
  bytes : κ → Nat

instance : PacketQueue DropTail where
  enqueue := DropTail.enqueue
  dequeue? := DropTail.dequeue?
  bytes := DropTail.bytes

/-- An output link with some kind of queue. -/
structure MeteredQueue (κ α : Type) where
  queue : κ
  meter : Meter α
  deriving DecidableEq, Repr

/-- An output link whose queue drops what it has no room for. -/
abbrev LinkQueue (α : Type) : Type := MeteredQueue DropTail α

namespace MeteredQueue

variable {κ α : Type}

/-- Counts the bytes of a packet that passes the queue by. -/
def onArrival (l : MeteredQueue κ α) (size : Nat) : MeteredQueue κ α :=
  { l with meter := l.meter.onArrival size }

def close (l : MeteredQueue κ α) : MeteredQueue κ α := { l with meter := l.meter.close }

/-- The link with the measurement that an operation left. -/
def withMeter {ε β : Type} (l : MeteredQueue κ α) (outcome : Except ε β × Meter α) :
    Except ε β × MeteredQueue κ α :=
  (outcome.1, { l with meter := outcome.2 })

section

variable [PacketQueue κ]

/-- Counts a packet and adds it to the queue, if the queue takes it. -/
def enqueue (l : MeteredQueue κ α) (p : Packet) : Bool × MeteredQueue κ α :=
  let (accepted, queue) := PacketQueue.enqueue l.queue p
  (accepted, ⟨queue, l.meter.onArrival p.size⟩)

/-- Takes out the packet at the head and stamps it. -/
def dequeue? (l : MeteredQueue κ α) : Option (Packet × MeteredQueue κ α) :=
  (PacketQueue.dequeue? l.queue).map fun (p, queue) => (l.meter.stamp p, { l with queue := queue })

/-- Takes out up to a number of packets, in order. -/
def drain (l : MeteredQueue κ α) : Nat → List Packet × MeteredQueue κ α
  | 0 => ([], l)
  | n + 1 =>
    match l.dequeue? with
    | none => ([], l)
    | some (packet, l) =>
      let (packets, l) := l.drain n
      (packet :: packets, l)

def sampleQueue (l : MeteredQueue κ α) : MeteredQueue κ α :=
  { l with meter := l.meter.sampleQueue (PacketQueue.bytes l.queue) }

end

variable [Scalar α]

/-- A link around a queue, if the settings can be used. -/
def build (queue : κ) (config : LinkConfig α) (now : Instant) :
    Except (ConfigFault α) (MeteredQueue κ α) :=
  (Meter.build config now).map fun meter => ⟨queue, meter⟩

/-- Ends the measurement interval and publishes its feedback. -/
def measure (l : MeteredQueue κ α) (now : Instant) : Attempt (MeteredQueue κ α) FeedbackField :=
  l.withMeter (l.meter.measure now)

def setCapacity (l : MeteredQueue κ α) (capacity : α) :
    Except (ConfigFault α) Unit × MeteredQueue κ α :=
  l.withMeter (l.meter.setCapacity capacity)

/-- Forgets what was measured and begins an interval. -/
def reset (l : MeteredQueue κ α) (now : Instant) : MeteredQueue κ α :=
  { l with meter := l.meter.reset now }

variable [PacketQueue κ]

def onTimer (l : MeteredQueue κ α) (timer : Timer) (now : Instant) :
    Attempt (MeteredQueue κ α) Unit :=
  l.withMeter (l.meter.onTimer timer now (PacketQueue.bytes l.queue))

def onTimeout (l : MeteredQueue κ α) (now : Instant) : Attempt (MeteredQueue κ α) Unit :=
  l.withMeter (l.meter.onTimeout now (PacketQueue.bytes l.queue))

end MeteredQueue

/-- A link with an empty queue and room for a number of packets, if the settings can be used. -/
def LinkQueue.build {α : Type} [Scalar α] (limit : Nat) (config : LinkConfig α) (now : Instant) :
    Except (ConfigFault α) (LinkQueue α) :=
  MeteredQueue.build (.empty limit) config now

end LoadFeedback
