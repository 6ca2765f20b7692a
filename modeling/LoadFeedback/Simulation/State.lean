import LoadFeedback.Link.Queue
import LoadFeedback.Receiver.Sink
import LoadFeedback.Sender.Flow
import LoadFeedback.Simulation.Agenda
import LoadFeedback.Simulation.Record
import LoadFeedback.Timer.Schedule

/-!
A number of flows over one link. Packets reach the link after a delay, wait until it has sent those
before them, and reach their receivers after the same delay; acknowledgments return without
queueing. The instants of a simulation count from its start.
-/

namespace LoadFeedback

/-- What happens outside the components. -/
inductive Event where
  | start (flow : Nat)
  | arrival (packet : Packet)
  | transmitted (packet : Packet)
  /-- A data packet reaches its receiver. -/
  | delivery (packet : Packet)
  /-- An acknowledgment reaches its sender. -/
  | ackArrival (ack : Packet)
  | report
  deriving DecidableEq, Repr

/-- A sender and its receiver, with what was seen of them. -/
structure Session (α : Type) where
  flow : Flow α
  sink : Sink
  startedAt : Option Instant
  /-- The windows at the reports, the latest first. -/
  windows : List α

/-- The session after its window was looked at for a report. -/
def Session.sample {α : Type} (session : Session α) : Session α :=
  { session with windows := session.flow.controller.window :: session.windows }

/-- What the simulation does next. -/
inductive Turn where
  /-- It moves on to the next instant at which something is due. -/
  | advance
  /-- It delivers the timers that are due. -/
  | timers
  /-- It handles the events that are due. -/
  | events
  deriving DecidableEq, Repr

/-- The state of a simulation. -/
structure Simulation (α : Type) where
  options : Options α
  link : LinkQueue α
  /-- Whether the link is sending a packet. -/
  linkBusy : Bool
  /-- The flows, numbered from one. -/
  sessions : List (Session α)
  /-- The timers of the link, whose number is zero, and of the flows. -/
  schedule : Schedule
  agenda : Agenda Event
  now : Instant
  turn : Turn
  /-- The utilisations at the reports, the latest first. -/
  utilizations : List α
  /-- The packets queued at the reports, the latest first. -/
  queueLengths : List α
  /-- Bytes that the link has sent since the last report, counted in a machine word. -/
  transmitted : UInt64
  /-- What was reported so far, the latest first. -/
  journal : List (Record α)

namespace Simulation

variable {α : Type}

def linkOwner : Nat := 0

def linkTimers : List Timer := [.queueSampling, .loadMeasurement]

def flowTimers : List Timer := [.holdDownFirst, .holdDownSecond, .pacing]

def session? (s : Simulation α) (flow : Nat) : Option (Session α) :=
  match flow with
  | 0 => none
  | i + 1 => s.sessions[i]?

def putSession (s : Simulation α) (flow : Nat) (session : Session α) : Simulation α :=
  { s with sessions := s.sessions.set (flow - 1) session }

/-- Keeps a record, if its level is asked for. -/
def note (s : Simulation α) (record : Record α) : Simulation α :=
  if s.options.keeps record.level then { s with journal := record :: s.journal } else s

/-- Puts down an event for after a span. -/
def later (s : Simulation α) (span : Span) (event : Event) : Simulation α :=
  { s with agenda := s.agenda.push (s.now + span) event }

/-- Copies deadlines of a component into the schedule. -/
def copyDeadlines (schedule : Schedule) (owner : Nat) (timers : List Timer)
    (deadline? : Timer → Option Instant) : Schedule :=
  timers.foldl (fun q timer => q.assign ⟨owner, timer⟩ (deadline? timer)) schedule

/-- Copies the deadlines of the link into the schedule. -/
def syncLink (s : Simulation α) : Simulation α :=
  { s with schedule := copyDeadlines s.schedule linkOwner linkTimers s.link.meter.deadline? }

/-- Copies the deadlines of a flow into the schedule. -/
def syncFlow (s : Simulation α) (flow : Nat) : Simulation α :=
  match s.session? flow with
  | none => s
  | some session =>
    { s with schedule := copyDeadlines s.schedule flow flowTimers session.flow.deadline? }

/-- Sends packets on their way to the link. -/
def launch (s : Simulation α) (packets : List Packet) : Simulation α :=
  packets.foldl (fun s p => s.later s.options.forwardDelay (.arrival p)) s

def nextInstant? (s : Simulation α) : Option Instant :=
  match s.schedule.next?, s.agenda.next? with
  | some a, some b => some (min a b)
  | some a, none => some a
  | none, b => b

/-- The instant up to which a simulation runs. What is shown of a run is about a clock that shows this
instant too: every duration is accepted, but from a start after which it takes the clock past its
horizon there is nothing to run. -/
def endsAt (s : Simulation α) : Instant := Span.secs s.options.duration

variable [Scalar α]

/-- The settings of the link that a simulation asks for. -/
def linkConfig (o : Options α) : LinkConfig α :=
  { LinkConfig.standard with
    capacity := some o.bitsPerSecond
    measurementInterval := Span.millis o.measurementInterval
    encode := o.law == .coded
    smoothing := o.smoothing }

/-- The settings of the senders that a simulation asks for. -/
def senderConfig (o : Options α) : SenderConfig α :=
  { SenderConfig.standard.setPacketSize o.packetSize with
    linkInterval := Span.millis o.measurementInterval
    law := o.law
    pacing := o.pacing
    limiter := o.limiter }

/-- The sessions with the given numbers, if their settings can be used. -/
def buildSessions (config : SenderConfig α) (tables : WindowTables α) (flows : List Nat) :
    Except (ConfigFault α) (List (Session α)) :=
  flows.mapM fun id =>
    (Flow.build id config tables).map fun flow =>
      ⟨flow, .start Acknowledger.defaultAckSize, none, []⟩

/-- The events at the start: every flow begins at once, and the first report is put down. -/
def firstEvents (o : Options α) (flows : List Nat) : Agenda Event :=
  let starts := flows.foldl (fun (a : Agenda Event) id => a.push 0 (.start id)) .empty
  starts.push (Span.millis o.reportInterval) .report

/-- A simulation before its start, if the settings can be used. -/
def build (o : Options α) (tables : WindowTables α) :
    Except (ConfigFault α) (Simulation α) := do
  let link ← LinkQueue.build o.buffer (linkConfig o) 0
  let flows := List.range' 1 o.flows
  let sessions ← buildSessions (senderConfig o) tables flows
  let s : Simulation α :=
    { options := o
      link := link
      linkBusy := false
      sessions := sessions
      schedule := .empty
      agenda := firstEvents o flows
      now := 0
      turn := .advance
      utilizations := []
      queueLengths := []
      transmitted := 0
      journal := [] }
  let s := s.note (.capacity o.bitsPerSecond link.meter.reading.target)
  let s := flows.foldl (fun s id => s.note (.planned id o.roundTrip)) s
  return s.syncLink

/-- Begins to send the packet at the head of the queue, if there is one. -/
def transmit (s : Simulation α) : Simulation α :=
  match s.link.dequeue? with
  | none => { s with linkBusy := false }
  | some (packet, link) =>
    { s with link := link, linkBusy := true }.later (s.options.transmissionTime packet.size)
      (.transmitted packet)

end Simulation

end LoadFeedback
