import LoadFeedback.Simulation.State

/-!
The course of a simulation, one small step at a time: a timer, an event, or the move to the next
instant. At each instant the timers come before the events.
-/

namespace LoadFeedback.Simulation

variable {α : Type}

/-- What a measurement of the link comes to, told from the link before and after it. -/
def measurementRecord [Scalar α] (before after : Meter α) (now : Instant) : Record α :=
  .measured before.reading.load before.meanQueue (before.elapsed now) after.reading

/-- What a timer does to a window, where that is worth a record. -/
def timerRecord? [Scalar α] (before : Controller α) (timer : Timer) : Option (Record α) :=
  match before, timer with
  | .coded c, .holdDownFirst => some (.freezeOver c.cautionSpan)
  | .coded c, .holdDownSecond => some (.holdDownOver c.window)
  | _, _ => none

def noteOption (s : Simulation α) : Option (Record α) → Simulation α
  | some record => s.note record
  | none => s

section

variable [Scalar α]

def onLinkTimer (s : Simulation α) (timer : Timer) : Attempt (Simulation α) Unit :=
  match s.link.onTimer timer s.now with
  | (.error fault, link) => (.error fault, { s with link := link })
  | (.ok _, link) =>
    let record := match timer with
      | .loadMeasurement => some (measurementRecord s.link.meter link.meter s.now)
      | _ => none
    (.ok (), ({ s with link := link }.noteOption record).syncLink)

def onFlowTimer (s : Simulation α) (id : Nat) (session : Session α) (timer : Timer) :
    Attempt (Simulation α) Unit :=
  match session.flow.onTimer timer s.now with
  | (.error fault, flow) => (.error fault, s.putSession id { session with flow := flow })
  | (.ok packets, flow) =>
    let s := s.putSession id { session with flow := flow }
    let s := s.noteOption (timerRecord? session.flow.controller timer)
    (.ok (), (s.launch packets).syncFlow id)

def onTimer (s : Simulation α) (key : TimerKey) : Attempt (Simulation α) Unit :=
  if key.owner = linkOwner then s.onLinkTimer key.timer
  else
    match s.session? key.owner with
    | none => (.ok (), s)
    | some session => s.onFlowTimer key.owner session key.timer

def onStart (s : Simulation α) (id : Nat) : Simulation α :=
  match s.session? id with
  | none => s
  | some session =>
    let (packets, flow) := session.flow.sendMany s.now
    let s := s.putSession id { session with flow := flow, startedAt := some s.now }
    ((s.note (.started id)).launch packets).syncFlow id

/-- Takes a packet into the queue of the link, and begins to send it if the link is idle. -/
def onArrival (s : Simulation α) (packet : Packet) : Simulation α :=
  let (accepted, link) := s.link.enqueue packet
  let s := { s with link := link }
  let s :=
    if accepted then s
    else (s.note (.queueFull packet.seq packet.flow)).note (.dropped packet.flow packet.seq)
  if s.linkBusy then s else s.transmit

/-- Sends a packet on its way to its receiver, and begins with the next one. -/
def onTransmitted (s : Simulation α) (packet : Packet) : Simulation α :=
  let s := { s with transmitted := s.transmitted + packet.size.toUInt64 }
  let s := match s.session? packet.flow with
    | none => s
    | some _ => s.later s.options.forwardDelay (.delivery packet)
  s.transmit

/-- Gives a packet to its receiver and sends the acknowledgment on its way. -/
def onDelivery (s : Simulation α) (packet : Packet) : Attempt (Simulation α) Unit :=
  match s.session? packet.flow with
  | none => (.ok (), s)
  | some session =>
    match session.sink.onData packet s.now with
    | (.error fault, sink) => (.error fault, s.putSession packet.flow { session with sink := sink })
    | (.ok answer, sink) =>
      let s := s.putSession packet.flow { session with sink := sink }
      match answer with
      | none => (.ok (), s)
      | some ack => (.ok (), s.later s.options.reverseDelay (.ackArrival ack))

def recentUtilization (s : Simulation α) : α :=
  Scalar.ofNat s.transmitted.toNat * 8.0
    / (s.options.bitsPerSecond * Span.seconds (Span.millis s.options.reportInterval))

/-- Notes how the link and the windows are, and puts down the next report. -/
def onReport (s : Simulation α) : Simulation α :=
  let utilization := s.recentUtilization
  let queued := s.link.queue.size
  let windows := s.sessions.map fun session => session.flow.controller.window
  let s := s.note (.progress s.now utilization queued s.link.meter.reading.loadFactor windows)
  let s :=
    { s with
      transmitted := 0
      utilizations := utilization :: s.utilizations
      queueLengths := Scalar.ofNat queued :: s.queueLengths
      sessions := s.sessions.map Session.sample }
  s.later (Span.millis s.options.reportInterval) .report

end

variable [PowerScalar α]

/-- What an acknowledgment did to a window, told from the flow before and after it. One that brings
nothing new does nothing. -/
def ackRecord? (before after : Flow α) (ack : Packet) (now : Instant) : Option (Record α) :=
  if ack.seq ≤ before.acked then none
  else
    match (before.learn ack now).controller, after.controller with
    | .coded _, .coded c =>
      ack.feedback.code?.map fun code => .codeTaken ack.seq code c.phase c.action c.window
    | .raw r, .raw last =>
      let loadFactor := ack.feedback.value.toNat
      some (.factorTaken ack.seq loadFactor (r.change loadFactor) last.window)
    | _, _ => none

def onAckArrival (s : Simulation α) (ack : Packet) : Attempt (Simulation α) Unit :=
  match s.session? ack.flow with
  | none => (.ok (), s)
  | some session =>
    match session.flow.onAck ack s.now with
    | (.error fault, flow) => (.error fault, s.putSession ack.flow { session with flow := flow })
    | (.ok packets, flow) =>
      let record := ackRecord? session.flow flow ack s.now
      let s := s.putSession ack.flow { session with flow := flow }
      (.ok (), ((s.noteOption record).launch packets).syncFlow ack.flow)

/-- Handles an event. -/
def onEvent (s : Simulation α) : Event → Attempt (Simulation α) Unit
  | .start id => (.ok (), s.onStart id)
  | .arrival packet => (.ok (), s.onArrival packet)
  | .transmitted packet => (.ok (), s.onTransmitted packet)
  | .delivery packet => s.onDelivery packet
  | .ackArrival ack => s.onAckArrival ack
  | .report => (.ok (), s.onReport)

/-- How far a simulation has come. -/
inductive Progress (α : Type) where
  /-- There is more to do. -/
  | running (s : Simulation α)
  /-- The end was reached, or nothing is to come. -/
  | finished (s : Simulation α)
  /-- A component refused a timer or an event. -/
  | failed (fault : Fault) (s : Simulation α)

/-- Goes on after a timer or an event. -/
def proceed : Attempt (Simulation α) Unit → Progress α
  | (.ok _, s) => .running s
  | (.error fault, s) => .failed fault s

/-- One step: a timer, an event, or the move to the next instant. -/
def step (s : Simulation α) : Progress α :=
  match s.turn with
  | .advance =>
    match s.nextInstant? with
    | none => .finished s
    | some next =>
      if s.endsAt < next then .finished s else .running { s with now := next, turn := .timers }
  | .timers =>
    match s.schedule.popDue? s.now with
    | none => .running { s with turn := .events }
    | some (key, schedule) => proceed ({ s with schedule := schedule }.onTimer key)
  | .events =>
    match s.agenda.popDue? s.now with
    | none => .running { s with turn := .advance }
    | some (event, agenda) => proceed ({ s with agenda := agenda }.onEvent event)

/-- Takes at most the given number of steps. -/
def run : Nat → Simulation α → Progress α
  | 0, s => .running s
  | steps + 1, s =>
    match s.step with
    | .running s => run steps s
    | progress => progress

end LoadFeedback.Simulation
