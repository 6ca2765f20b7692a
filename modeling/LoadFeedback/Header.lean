import LoadFeedback.Fault
import LoadFeedback.Packet

/-!
The header that carries the kind and the feedback of a packet: three bytes. The first holds a flag
for acknowledgments, a flag for raw load factors and, without the latter, the code; the other two
hold the raw load factor, the high byte first.
-/

namespace LoadFeedback

/-- What the header of a packet says. -/
structure Header where
  kind : PacketKind
  /-- Whether the field is a load factor and not a code. -/
  raw : Bool
  feedback : FeedbackField
  deriving DecidableEq, Repr

namespace Header

/-- Bytes of a header. -/
def size : Nat := 3

/-- The flag of acknowledgments in the first byte. -/
def ackFlag : UInt8 := 0x80

/-- The flag of raw load factors in the first byte. -/
def rawFlag : UInt8 := 0x40

/-- The bits of the code in the first byte. -/
def codeMask : UInt8 := 0x03

def kindFlag : PacketKind → UInt8
  | .data => 0
  | .ack => ackFlag

/-- The three bytes of a header. A value that is no code can only be written as a raw one. -/
def bytes (h : Header) : Except Fault (List UInt8) :=
  if h.raw then
    let value := h.feedback.value
    .ok [kindFlag h.kind ||| rawFlag, (value >>> 8).toUInt8, value.toUInt8]
  else
    match h.feedback.code? with
    | some code => .ok [kindFlag h.kind ||| UInt8.ofNat code.bits, 0, 0]
    | none => .error (.invalidFeedback h.feedback.value.toNat)

/-- Writes a header over the start of a buffer and says how many bytes it took. The buffer comes
back in either case. -/
def write (h : Header) (buffer : List UInt8) : Attempt (List UInt8) Nat :=
  if buffer.length < size then (.error .bufferTooShort, buffer)
  else
    match h.bytes with
    | .ok bs => (.ok size, bs ++ buffer.drop size)
    | .error fault => (.error fault, buffer)

/-- The feedback field of the three bytes of a header. -/
def readFeedback (first second third : UInt8) : Except Fault FeedbackField :=
  if first &&& rawFlag ≠ 0 then .ok ⟨second.toUInt16 <<< 8 ||| third.toUInt16⟩
  else if first &&& ~~~(ackFlag ||| codeMask) ≠ 0 then .error (.invalidFeedback first.toNat)
  else
    let bits := (first &&& codeMask).toNat
    match LoadCode.ofBits? bits with
    | some code => .ok (.ofCode code)
    | none => .error (.invalidFeedback bits)

/-- Reads a header from the start of a buffer, with the number of bytes it took. -/
def read : List UInt8 → Except Fault (Header × Nat)
  | first :: second :: third :: _ =>
    match readFeedback first second third with
    | .ok feedback =>
      let kind := if first &&& ackFlag ≠ 0 then .ack else .data
      .ok (⟨kind, first &&& rawFlag ≠ 0, feedback⟩, size)
    | .error fault => .error fault
  | _ => .error .bufferTooShort

end Header

end LoadFeedback
