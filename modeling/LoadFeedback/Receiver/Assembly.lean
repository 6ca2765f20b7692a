import LoadFeedback.Fault
import LoadFeedback.Packet

/-!
Which packets have arrived. The acknowledgment of every data packet names the first packet that is
still missing, whatever the order in which packets come.
-/

namespace LoadFeedback

/-- The packets that have arrived: all below the first missing one, and some above it. -/
structure Assembly where
  /-- The first missing packet, and so the number of packets that arrived in order. -/
  missing : Nat := 0
  /-- The packets above it that have arrived, in rising order. -/
  above : List Nat := []
  deriving DecidableEq, Repr

namespace Assembly

def empty : Assembly := {}

def contains (a : Assembly) (seq : Nat) : Bool :=
  seq < a.missing || a.above.contains seq

def place (seq : Nat) : List Nat → List Nat
  | [] => [seq]
  | s :: rest => if seq < s then seq :: s :: rest else s :: place seq rest

@[simp] theorem mem_place {seq s : Nat} {above : List Nat} :
    s ∈ place seq above ↔ s = seq ∨ s ∈ above := by
  induction above with
  | nil => simp [place]
  | cons t rest ih =>
    simp only [place]
    split
    · simp
    · rw [List.mem_cons, ih, List.mem_cons]
      exact or_left_comm

/-- Moves past the packets that follow without a gap. -/
def advance (missing : Nat) : List Nat → Assembly
  | [] => ⟨missing, []⟩
  | s :: rest => if s = missing then advance (missing + 1) rest else ⟨missing, s :: rest⟩

/-- Takes a packet. One that has arrived before changes nothing. -/
def record (a : Assembly) (seq : Nat) : Assembly :=
  if a.contains seq then a
  else if a.missing < seq then { a with above := place seq a.above }
  else advance (a.missing + 1) a.above

end Assembly

/-- Answers data packets with acknowledgments. -/
structure Acknowledger where
  assembly : Assembly
  /-- Bytes of an acknowledgment. -/
  ackSize : Nat
  deriving DecidableEq, Repr

namespace Acknowledger

/-- Bytes of an acknowledgment, unless asked for others. -/
def defaultAckSize : Nat := 40

def start (ackSize : Nat) : Acknowledger := ⟨.empty, ackSize⟩

def cumulative (a : Acknowledger) : Nat := a.assembly.missing

def reset (a : Acknowledger) : Acknowledger := { a with assembly := .empty }

def onData (a : Acknowledger) (p : Packet) (now : Instant) : Attempt Acknowledger Packet :=
  if p.isData then
    let a := { a with assembly := a.assembly.record p.seq }
    (.ok (.ack p.flow a.cumulative a.ackSize now p.sentAt), a)
  else (.error .invalidPacket, a)

end Acknowledger

end LoadFeedback
