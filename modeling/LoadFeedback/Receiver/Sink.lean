import LoadFeedback.Receiver.Assembly

/-!
A receiver. It answers every data packet at once and echoes the feedback that the packet brought. A
reset starts a new incarnation: packets that left before it are dropped without an answer.
-/

namespace LoadFeedback

/-- What a receiver counts. -/
structure SinkTally where
  /-- Bytes that arrived in order, counted in a machine word; duplicates do not count. -/
  byteCount : UInt64 := 0
  acks : Nat := 0
  /-- Packets of an earlier incarnation. -/
  discarded : Nat := 0
  deriving DecidableEq, Repr

namespace SinkTally

def bytes (t : SinkTally) : Nat := t.byteCount.toNat

/-- Counts an answer, and the bytes that its packet brought into order. -/
def count (t : SinkTally) (bytes : Nat) : SinkTally :=
  { t with byteCount := t.byteCount + bytes.toUInt64, acks := t.acks + 1 }

end SinkTally

/-- A receiver. -/
structure Sink where
  /-- Answers data packets. -/
  acknowledger : Acknowledger
  /-- When the present incarnation began, unless it is the first. -/
  lastReset : Option Instant
  tally : SinkTally
  deriving DecidableEq, Repr

namespace Sink

def start (ackSize : Nat) : Sink := ⟨.start ackSize, none, {}⟩

def cumulative (s : Sink) : Nat := s.acknowledger.cumulative

/-- Whether a packet left before the present incarnation. -/
def isStale (s : Sink) (p : Packet) : Bool :=
  match s.lastReset with
  | some t => p.sentAt < t
  | none => false

/-- Takes a data packet and answers it with its own feedback, unless it belongs to an earlier
incarnation. -/
def onData (s : Sink) (p : Packet) (now : Instant) : Attempt Sink (Option Packet) :=
  if !p.isData then (.error .invalidPacket, s)
  else if s.isStale p then
    (.ok none, { s with tally := { s.tally with discarded := s.tally.discarded + 1 } })
  else
    match s.acknowledger.onData p now with
    | (.error fault, acknowledger) => (.error fault, { s with acknowledger := acknowledger })
    | (.ok ack, acknowledger) =>
      let delivered := acknowledger.cumulative - s.cumulative
      (.ok (some (ack.withFeedback p.feedback)),
        { s with acknowledger := acknowledger, tally := s.tally.count (delivered * p.size) })

def reset (s : Sink) (now : Instant) : Sink :=
  { s with acknowledger := s.acknowledger.reset, lastReset := some now }

end Sink

end LoadFeedback
