import LoadFeedback.Sender.Controller

/-!
A sender. Data packets are numbered from zero. A packet may leave while its number is below the
number of packets acknowledged plus the whole part of the window, and below the number of packets
that the application has made available.
-/

namespace LoadFeedback

/-- What a sender counts about its packets. -/
structure FlowTally where
  sent : Nat := 0
  /-- Of these, the ones that the pacing timer released. -/
  paced : Nat := 0
  acks : Nat := 0
  /-- Acknowledgments that brought nothing new. -/
  duplicates : Nat := 0
  deriving DecidableEq, Repr

/-- A sender and its window. -/
structure Flow (α : Type) where
  id : Nat
  /-- Bytes of a data packet. -/
  packetSize : Nat
  nextSeq : Nat
  /-- How many packets were acknowledged, without a gap. -/
  acked : Nat
  /-- How many packets the application has made available. -/
  limit : Nat
  controller : Controller α
  /-- The round trip, from the echo of acknowledgments. -/
  roundTrip : RoundTrip
  tally : FlowTally

namespace Flow

variable {α : Type}

/-- The largest packet number, and the limit of a flow without one. -/
def maxSeq : Nat := UInt64.size - 1

/-- How many packets left and are not acknowledged. -/
def inFlight (f : Flow α) : Nat := f.nextSeq - f.acked

/-- Sets how many packets the application has made available. -/
def setLimit (f : Flow α) (packets : Nat) : Flow α := { f with limit := packets }

def timeout? (f : Flow α) : Option Instant := f.controller.timeout?

def deadline? (f : Flow α) (timer : Timer) : Option Instant := f.controller.deadline? timer

def close (f : Flow α) : Flow α := { f with controller := f.controller.close }

def sendOne (f : Flow α) (now : Instant) (paced : Bool) : Packet × Flow α :=
  (.data f.id f.nextSeq f.packetSize now,
    { f with
      nextSeq := f.nextSeq + 1
      tally :=
        { f.tally with
          sent := f.tally.sent + 1
          paced := if paced then f.tally.paced + 1 else f.tally.paced }
      controller := f.controller.sent paced })

section

variable [Scalar α]

/-- A sender around a window, with no end to its data. -/
def withController (id packetSize : Nat) (controller : Controller α) : Flow α where
  id := id
  packetSize := packetSize
  nextSeq := 0
  acked := 0
  limit := maxSeq
  controller := controller
  roundTrip := .start typicalRoundTrip
  tally := {}

/-- A sender with no end to its data, if the settings can be used. -/
def build (id : Nat) (config : SenderConfig α) (tables : WindowTables α) :
    Except (ConfigFault α) (Flow α) :=
  (Controller.build config tables).map (withController id config.packetSize)

/-- The first packet number that may not leave yet. -/
def allowance (f : Flow α) : Nat :=
  min (min maxSeq (f.acked + Scalar.floor f.controller.window)) f.limit

def maySend (f : Flow α) : Bool :=
  f.nextSeq < f.allowance

@[simp] theorem allowance_sendOne (f : Flow α) (now : Instant) :
    (f.sendOne now false).2.allowance = f.allowance := by
  obtain ⟨_, _, _, _, _, controller, _, _⟩ := f
  cases controller <;> rfl

omit [Scalar α] in
@[simp] theorem nextSeq_sendOne (f : Flow α) (now : Instant) (paced : Bool) :
    (f.sendOne now paced).2.nextSeq = f.nextSeq + 1 := rfl

def burst (f : Flow α) (now : Instant) : List Packet × Flow α :=
  if _h : f.maySend then
    let sent := f.sendOne now false
    let rest := sent.2.burst now
    (sent.1 :: rest.1, rest.2)
  else ([], f)
termination_by f.allowance - f.nextSeq
decreasing_by
  have h : f.nextSeq < f.allowance := by simpa [maySend] using _h
  simp only [allowance_sendOne, nextSeq_sendOne]
  omega

/-- Sends what the window allows. A paced window sends one packet and arms the pacing timer for the
next; any other window is sent as a burst. -/
def sendMany (f : Flow α) (now : Instant) : List Packet × Flow α :=
  if f.maySend then
    if f.controller.pacingInterval?.isSome then
      let (packet, f) := f.sendOne now false
      ([packet], if f.maySend then { f with controller := (f.controller.pace now).2 } else f)
    else f.burst now
  else ([], f)

/-- The packet that the pacing timer releases, if one may leave. -/
def release (f : Flow α) (released : Bool) (now : Instant) : List Packet × Flow α :=
  if released && f.maySend then
    let (packet, f) := f.sendOne now true
    ([packet], f)
  else ([], f)

/-- Goes on after the window has taken timers. -/
def afterTimers (f : Flow α) (now : Instant) :
    Attempt (Controller α) Bool → Attempt (Flow α) (List Packet)
  | (.ok released, controller) =>
    let (packets, f) := { f with controller := controller }.release released now
    (.ok packets, f)
  | (.error fault, controller) => (.error fault, { f with controller := controller })

/-- Delivers a timer and gives the packet that it releases. -/
def onTimer (f : Flow α) (timer : Timer) (now : Instant) : Attempt (Flow α) (List Packet) :=
  f.afterTimers now (f.controller.onTimer timer now)

/-- Delivers every timer that is due and gives the packet that they release. -/
def onTimeout (f : Flow α) (now : Instant) : Attempt (Flow α) (List Packet) :=
  f.afterTimers now (f.controller.onTimeout now)

/-- Takes a round trip, if the acknowledgment echoes when its data packet left. -/
def learn (f : Flow α) (ack : Packet) (now : Instant) : Flow α :=
  match ack.echo with
  | none => f
  | some sentAt =>
    let roundTrip := f.roundTrip.update (now - sentAt)
    { f with roundTrip := roundTrip, controller := f.controller.measured roundTrip }

/-- Returns to the state of a new flow, but for the limit. -/
def reset (f : Flow α) : Flow α :=
  { f with
    nextSeq := 0, acked := 0, roundTrip := f.roundTrip.reset, tally := {}
    controller := f.controller.reset }

end

variable [PowerScalar α]

/-- Takes a new acknowledgment that the window can use. -/
def accept (f : Flow α) (ack : Packet) (now : Instant) : Attempt (Flow α) (List Packet) :=
  let f := { f with acked := ack.seq, tally := { f.tally with acks := f.tally.acks + 1 } }
  let f := f.learn ack now
  match f.controller.onAck ack now with
  | (.ok _, controller) =>
    let (packets, f) := { f with controller := controller }.sendMany now
    (.ok packets, f)
  | (.error fault, controller) => (.error fault, { f with controller := controller })

/-- Takes an acknowledgment and gives the packets that it lets leave. Data packets, and
acknowledgments of packets that never left, are refused; one that brings nothing new is counted. -/
def onAck (f : Flow α) (ack : Packet) (now : Instant) : Attempt (Flow α) (List Packet) :=
  if ack.isData || f.nextSeq < ack.seq then (.error .invalidPacket, f)
  else if ack.seq ≤ f.acked then
    (.ok [], { f with tally := { f.tally with duplicates := f.tally.duplicates + 1 } })
  else
    match f.controller.check ack with
    | .ok _ => f.accept ack now
    | .error fault => (.error fault, f)

end Flow

end LoadFeedback
