import LoadFeedback.Feedback
import LoadFeedback.Time

/-!
Packets, as far as feedback needs them: who sent them, which number they have, how large they are,
when they left, and the feedback they carry. Links stamp data packets only; an acknowledgment brings
the feedback of its data packet back to the sender.
-/

namespace LoadFeedback

/-- Data travels towards the receiver, acknowledgments travel back. -/
inductive PacketKind where
  /-- A data packet, stamped by links. -/
  | data
  /-- An acknowledgment, never stamped. -/
  | ack
  deriving DecidableEq, Repr

def PacketKind.name : PacketKind → String
  | .data => "Data"
  | .ack => "Ack"

/-- A packet on its way. -/
structure Packet where
  /-- The flow that the packet belongs to. -/
  flow : Nat
  /-- The number of a data packet; of an acknowledgment, how many data packets arrived in order. -/
  seq : Nat
  kind : PacketKind
  /-- Bytes. -/
  size : Nat
  /-- When the packet left its sender, or the acknowledgment its receiver. -/
  sentAt : Instant
  /-- When the acknowledged data packet left its sender. -/
  echo : Option Instant
  feedback : FeedbackField
  deriving DecidableEq, Repr

namespace Packet

/-- A data packet as it leaves its sender. -/
def data (flow seq size : Nat) (now : Instant) : Packet :=
  ⟨flow, seq, .data, size, now, none, .initial⟩

/-- An acknowledgment that echoes when the data packet left. -/
def ack (flow seq size : Nat) (now echo : Instant) : Packet :=
  ⟨flow, seq, .ack, size, now, some echo, .initial⟩

/-- Whether links stamp the packet. -/
def isData (p : Packet) : Bool :=
  p.kind == .data

def withFeedback (p : Packet) (f : FeedbackField) : Packet :=
  { p with feedback := f }

/-- The packet after a link that publishes the given feedback. The more severe value stays on data
packets; acknowledgments pass unchanged. -/
def stamped (p : Packet) (published : FeedbackField) : Packet :=
  if p.isData then p.withFeedback (p.feedback.severest published) else p

end Packet

end LoadFeedback
