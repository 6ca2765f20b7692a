import LoadFeedback.Fault

/-!
What is to be simulated: a number of flows over one link, for a time, and how much of it is to be
reported.
-/

namespace LoadFeedback

/-- How important a record is. -/
inductive Level where
  /-- Something went wrong. -/
  | error
  /-- Something was lost. -/
  | warn
  /-- The course of the simulation. -/
  | info
  /-- What components do now and then. -/
  | debug
  /-- What components do all the time. -/
  | trace
  deriving DecidableEq, Repr

namespace Level

def all : List Level := [.error, .warn, .info, .debug, .trace]

/-- The place of a level in that order, from one. -/
def rank : Level → Nat
  | .error => 1
  | .warn => 2
  | .info => 3
  | .debug => 4
  | .trace => 5

def name : Level → String
  | .error => "ERROR"
  | .warn => "WARN"
  | .info => "INFO"
  | .debug => "DEBUG"
  | .trace => "TRACE"

end Level

/-- The settings of a simulation. -/
structure Options (α : Type) where
  flows : Nat
  /-- The capacity of the link in megabits per second. -/
  capacity : α
  /-- How many packets the link can queue. -/
  buffer : Nat
  /-- The round trip without queueing, in milliseconds. -/
  roundTrip : Nat
  /-- For how long to simulate, in seconds. -/
  duration : Nat
  /-- The law of the senders, which also decides what the link publishes. -/
  law : ControlLaw
  /-- Over how long the link measures its load, in milliseconds. -/
  measurementInterval : Nat
  /-- Whether load factors are averaged over the intervals. -/
  smoothing : Bool
  /-- Whether small windows are paced. -/
  pacing : Bool
  /-- Whether the additive increase is bounded by the window tables. -/
  limiter : Bool
  /-- Bytes of a data packet. -/
  packetSize : Nat
  /-- How often to report, in milliseconds. -/
  reportInterval : Nat
  /-- The least important records that are kept, if any are. -/
  level : Option Level
  /-- Where the records go, unless they are shown. -/
  logFile : Option String
  deriving DecidableEq, Repr

namespace Options

variable {α : Type}

/-- Whether a record of the given level is kept. -/
def keeps (o : Options α) (level : Level) : Bool :=
  match o.level with
  | some least => level.rank ≤ least.rank
  | none => false

/-- How long a packet takes from a sender to the link, and from the link to a receiver. -/
def forwardDelay (o : Options α) : Span :=
  Span.millis (o.roundTrip / 4)

/-- How long an acknowledgment takes: the rest of the round trip. -/
def reverseDelay (o : Options α) : Span :=
  Span.millis (o.roundTrip - o.roundTrip / 4 * 2)

variable [Scalar α]

/-- The settings of a simulation unless told otherwise. -/
def standard : Options α where
  flows := 4
  capacity := 10.0
  buffer := 1000
  roundTrip := 80
  duration := 30
  law := .coded
  measurementInterval := 200
  smoothing := false
  pacing := true
  limiter := false
  packetSize := 1000
  reportInterval := 1000
  level := some .info
  logFile := none

/-- The capacity of the link in bits per second. -/
def bitsPerSecond (o : Options α) : α := o.capacity * 1e6

/-- How long the link takes to send a number of bytes. -/
def transmissionTime (o : Options α) (bytes : Nat) : Span :=
  Scalar.billionths (Scalar.ofNat bytes * 8.0 / o.bitsPerSecond)

end Options

end LoadFeedback
