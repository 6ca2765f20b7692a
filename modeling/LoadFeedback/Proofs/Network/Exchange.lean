import LoadFeedback.Proofs.Flow.Event
import LoadFeedback.Proofs.Receiver.Sink

/-! A sender and a receiver, joined by a network that keeps every packet it was ever given. It may
hand out any of them at any time and as often as it likes, so packets are delayed, reordered and
duplicated; one that is never handed out again is lost. -/
namespace LoadFeedback

variable {α : Type}

/-- One sender, one receiver, and everything that has passed between them. -/
structure Exchange (α : Type) where
  flow : Flow α
  sink : Sink
  /-- The data packets that left the sender, in this order. -/
  sent : List Packet := []
  /-- The data packets that the receiver took, as they arrived. -/
  taken : List Packet := []
  /-- The acknowledgments that the receiver has answered. -/
  acks : List Packet := []

/-- What can happen next. The network names a packet by its place among those it was given, and
nothing happens where there is none. -/
inductive ExchangeEvent where
  | send (now : Instant)
  | timer (timer : Timer) (now : Instant)
  | timeout (now : Instant)
  | limit (packets : Nat)
  | close
  /-- A data packet arrives, with any feedback that the links have left in it. -/
  | data (index : Nat) (feedback : FeedbackField) (now : Instant)
  /-- An acknowledgment arrives. -/
  | ack (index : Nat) (now : Instant)

namespace Exchange

/-- The sender before its first packet, and a receiver to which nothing has come. -/
def start (flow : Flow α) (ackSize : Nat) : Exchange α := ⟨flow, .start ackSize, [], [], []⟩

/-- A data packet reaches the receiver. -/
def arrive (x : Exchange α) (p : Packet) (now : Instant) : Exchange α :=
  match x.sink.onData p now with
  | (.ok (some ack), sink) => { x with sink := sink, taken := x.taken ++ [p], acks := x.acks ++ [ack] }
  | (_, sink) => { x with sink := sink }

/-- A data packet of the present incarnation is taken and answered. -/
theorem arrive_of_data (x : Exchange α) {p : Packet} (hData : p.isData = true)
    (hStale : x.sink.isStale p = false) (now : Instant) : x.arrive p now =
      { x with
        sink := x.sink.take p
        taken := x.taken ++ [p]
        acks := x.acks ++ [x.sink.answer p now] } := by
  rcases x.sink.onData_cases p now with ⟨hAck, _⟩ | ⟨_, hOld, _⟩ | ⟨_, _, hResult⟩
  · exact absurd (hData.symm.trans hAck) nofun
  · exact absurd (hOld.symm.trans hStale) nofun
  · rw [arrive, hResult]

variable [PowerScalar α]

/-- The sender is called, and the network is given the packets that the call returns. -/
def call (x : Exchange α) (event : FlowEvent) : Exchange α :=
  { x with flow := (x.flow.after event).2, sent := x.sent ++ (x.flow.after event).1 }

/-- The exchange after an event. -/
def after (x : Exchange α) : ExchangeEvent → Exchange α
  | .send now => x.call (.send now)
  | .timer timer now => x.call (.timer timer now)
  | .timeout now => x.call (.timeout now)
  | .limit packets => x.call (.limit packets)
  | .close => x.call .close
  | .data index feedback now =>
    match x.sent[index]? with
    | some p => x.arrive (p.withFeedback feedback) now
    | none => x
  | .ack index now =>
    match x.acks[index]? with
    | some ack => x.call (.ack ack now)
    | none => x

/-- The exchange after a list of events, the first one first. -/
def run (x : Exchange α) (events : List ExchangeEvent) : Exchange α :=
  events.foldl after x

/-- What every run keeps: the sender is called without a reset and only with acknowledgments of the
receiver, and the receiver is given only packets of the sender. -/
theorem run_keeps {P : Exchange α → Prop}
    (hCall : ∀ x event, event ≠ .reset → (∀ p now, event = .ack p now → p ∈ x.acks) →
      P x → P (x.call event))
    (hArrive : ∀ x, ∀ p ∈ x.sent, ∀ feedback now, P x → P (x.arrive (p.withFeedback feedback) now))
    (events : List ExchangeEvent) (x : Exchange α) (h : P x) : P (x.run events) := by
  induction events generalizing x with
  | nil => exact h
  | cons event rest ih =>
      refine ih (x.after event) ?_
      cases event with
      | data index feedback now =>
          cases hAt : x.sent[index]? with
          | none => simpa only [after, hAt] using h
          | some p =>
              simp only [after, hAt]
              exact hArrive x p (List.mem_of_getElem? hAt) feedback now h
      | ack index now =>
          cases hAt : x.acks[index]? with
          | none => simpa only [after, hAt] using h
          | some ack =>
              simp only [after, hAt]
              refine hCall x _ nofun ?_ h
              rintro p now ⟨⟩
              exact List.mem_of_getElem? hAt
      | send | timer | timeout | limit | close => exact hCall x _ nofun nofun h

end Exchange
end LoadFeedback
