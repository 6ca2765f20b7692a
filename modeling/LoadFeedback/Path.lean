import LoadFeedback.Link.Queue
import LoadFeedback.Receiver.Sink
import LoadFeedback.Sender.Flow

/-!
A sender and its receiver with links in a row between them. Packets of the sender enter the first
link; those that leave the last one wait on the wire until they are delivered, and each
acknowledgment reaches the sender at once.
-/

namespace LoadFeedback

/-- A sender, the links on its path, the packets behind the last link, and the receiver. -/
structure Path (α : Type) where
  /-- The links in the order in which packets meet them. -/
  links : List (LinkQueue α)
  flow : Flow α
  sink : Sink
  /-- The packets that have left the last link, the first one first. -/
  wire : List Packet

/-- What became of a packet that was delivered. -/
inductive Delivery (α : Type) where
  /-- The receiver dropped it without an answer. -/
  | discarded
  /-- The receiver or the sender refused it or its acknowledgment. -/
  | refused (fault : Fault)
  /-- The sender took the acknowledgment, which let some packets leave. -/
  | answered (ack : Packet) (released : Nat) (action : Action) (window : α)

namespace Path

variable {α : Type}

/-- Offers packets to the link at a place, in order; behind the last link is the wire. -/
def offer (p : Path α) (place : Nat) (packets : List Packet) : Path α :=
  match p.links[place]? with
  | none => { p with wire := p.wire ++ packets }
  | some link =>
    let link := packets.foldl (fun l packet => (l.enqueue packet).2) link
    { p with links := p.links.set place link }

/-- Counts the bytes of traffic that passes the queue of a link by. -/
def cross (p : Path α) (place bytes : Nat) : Path α :=
  { p with links := p.links.modify place (·.onArrival bytes) }

/-- Moves up to a number of packets from a link to what is behind it. -/
def forward (p : Path α) (place count : Nat) : List Packet × Path α :=
  match p.links[place]? with
  | none => ([], p)
  | some link =>
    let (packets, link) := link.drain count
    (packets, offer { p with links := p.links.set place link } (place + 1) packets)

def lose (p : Path α) (i : Nat) : Option Packet × Path α :=
  (p.wire[i]?, { p with wire := p.wire.eraseIdx i })

def resetSink (p : Path α) (now : Instant) : Path α :=
  { p with sink := p.sink.reset now }

section

variable [Scalar α]

/-- Idle links, a new sender and a new receiver, if all settings can be used. The first link that
cannot be used is named before the sender. -/
def build (links : List (Nat × LinkConfig α)) (sender : SenderConfig α) (tables : WindowTables α) :
    Except (ConfigFault α) (Path α) := do
  let links ← links.mapM fun (limit, config) => LinkQueue.build limit config 0
  let flow ← Flow.build 1 sender tables
  return ⟨links, flow, .start Acknowledger.defaultAckSize, []⟩

def atLink {β : Type} (p : Path α) (place : Nat)
    (operation : LinkQueue α → Attempt (LinkQueue α) β) : Option (Except Fault β) × Path α :=
  match p.links[place]? with
  | none => (none, p)
  | some link =>
    let (outcome, link) := operation link
    (some outcome, { p with links := p.links.set place link })

def measure (p : Path α) (place : Nat) (now : Instant) :
    Option (Except Fault FeedbackField) × Path α :=
  p.atLink place (·.measure now)

/-- Delivers every timer of a link that is due. -/
def linkTimeout (p : Path α) (place : Nat) (now : Instant) :
    Option (Except Fault Unit) × Path α :=
  p.atLink place (·.onTimeout now)

/-- Lets the sender send, and gives the number of packets. -/
def send (p : Path α) (now : Instant) : Nat × Path α :=
  let (packets, flow) := p.flow.sendMany now
  (packets.length, offer { p with flow := flow } 0 packets)

/-- Delivers every timer of the sender that is due, and gives the number of packets released. -/
def flowTimeout (p : Path α) (now : Instant) : Attempt (Path α) Nat :=
  match p.flow.onTimeout now with
  | (.ok packets, flow) => (.ok packets.length, offer { p with flow := flow } 0 packets)
  | (.error fault, flow) => (.error fault, { p with flow := flow })

end

variable [PowerScalar α]

/-- Gives a packet to the receiver and its acknowledgment to the sender, with the packets that this
lets leave. -/
def deliverOne (flow : Flow α) (sink : Sink) (packet : Packet) (now : Instant) :
    Delivery α × List Packet × Flow α × Sink :=
  match sink.onData packet now with
  | (.error fault, sink) => (.refused fault, [], flow, sink)
  | (.ok none, sink) => (.discarded, [], flow, sink)
  | (.ok (some ack), sink) =>
    match flow.onAck ack now with
    | (.error fault, flow) => (.refused fault, [], flow, sink)
    | (.ok released, flow) =>
      (.answered ack released.length flow.controller.state.action flow.controller.window,
        released, flow, sink)

/-- Gives packets to the receiver and their acknowledgments to the sender, in order. -/
def deliverAll (now : Instant) (flow : Flow α) (sink : Sink) :
    List Packet → List (Delivery α) × List Packet × Flow α × Sink
  | [] => ([], [], flow, sink)
  | packet :: rest =>
    let (delivery, released, flow, sink) := deliverOne flow sink packet now
    let (deliveries, more, flow, sink) := deliverAll now flow sink rest
    (delivery :: deliveries, released ++ more, flow, sink)

/-- Empties the wire. The packets that this lets leave enter the first link afterwards. -/
def deliver (p : Path α) (now : Instant) : List (Delivery α) × Path α :=
  let (deliveries, released, flow, sink) := deliverAll now p.flow p.sink p.wire
  (deliveries, offer { p with flow := flow, sink := sink, wire := [] } 0 released)

end Path

end LoadFeedback
