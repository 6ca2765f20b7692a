import LoadFeedback.Sender.WindowState

/-!
The law for load factors. Every acknowledgment moves the window by a multiplicative term, which
shrinks as the load factor nears a hundred percent and is negative above, and by an additive term.
There is no hold-down.
-/

namespace LoadFeedback

/-- A sender's window under the law for load factors. -/
structure Raw (α : Type) extends WindowState α

namespace Raw

variable {α : Type}

/-- A load factor of a hundred percent, in the feedback field. -/
def fullLoad : Nat := 10000

/-- The largest load factor in the feedback field that counts as low. -/
def lowBound : Nat := 100 * LoadCode.lowThreshold

section

variable [Scalar α]

def start (config : SenderConfig α) : Raw α :=
  ⟨.start config⟩

def reset (r : Raw α) : Raw α :=
  ⟨r.toWindowState.reset⟩

/-- Why an acknowledgment cannot be used: it is none. -/
def check (p : Packet) : Except Fault Nat :=
  if p.isData then .error .invalidPacket else .ok p.feedback.value.toNat

/-- The gain of the multiplicative term for a load factor. -/
def gain (r : Raw α) (loadFactor : Nat) : α :=
  if loadFactor ≤ lowBound then 0.0625
  else r.config.k * (Scalar.ofNat fullLoad / Scalar.ofNat loadFactor - 1.0)

/-- Delivers a timer, which is disarmed first. There is none but the pacing timer, and it lets a
packet leave. -/
def onTimer (r : Raw α) (timer : Timer) : Attempt (Raw α) Bool :=
  let r := { r with timers := r.timers.stop timer }
  match timer with
  | .pacing => (.ok true, r)
  | timer => (.error (.unusedByRawLaw timer), r)

/-- Delivers the pacing timer if it is due. -/
def onTimeout (r : Raw α) (now : Instant) : Attempt (Raw α) Bool :=
  if r.timers.isExpired .pacing now then r.onTimer .pacing else (.ok false, r)

end

variable [PowerScalar α]

/-- The multiplicative term for a load factor: the gain compounded over the part of a measurement
interval that the round trip takes. -/
def multiplicativeTerm (r : Raw α) (loadFactor : Nat) : α :=
  PowerScalar.pow (1.0 + r.gain loadFactor) r.scaling.exponent - 1.0

/-- By how much a load factor changes the window. -/
def change (r : Raw α) (loadFactor : Nat) : α :=
  r.multiplicativeTerm loadFactor + r.additiveTerm

/-- Changes the window for a load factor, not below one packet and not above the largest window. -/
def respond (r : Raw α) (loadFactor : Nat) : Raw α :=
  let change := r.change loadFactor
  let shrinks := change < 0.0
  let action := if shrinks then .decrease else .increase
  let cuts := if shrinks then r.tally.cuts + 1 else r.tally.cuts
  { r with
    window := r.bounded (Scalar.max (r.window + change) WindowState.minWindow)
    action := action
    tally := { r.tally with cuts := cuts }.count action }

def onAck (r : Raw α) (p : Packet) : Attempt (Raw α) Nat :=
  match check p with
  | .ok loadFactor => (.ok loadFactor, r.respond loadFactor)
  | .error fault => (.error fault, r)

end Raw

end LoadFeedback
