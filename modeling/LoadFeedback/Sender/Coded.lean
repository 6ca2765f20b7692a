import LoadFeedback.Sender.WindowState
import LoadFeedback.Window.Tables

/-!
The law for coded feedback. Low load lets the window grow by a factor, high load by a term, and
overload cuts it once. After a cut the window is frozen for one measurement interval of the links,
so that the next feedback knows the smaller window, and then only grows by terms for one round trip.
-/

namespace LoadFeedback

/-- A sender's window under the law for coded feedback. -/
structure Coded (α : Type) extends WindowState α where
  /-- How far the hold-down has come. -/
  phase : HoldDownPhase
  /-- The gain of a multiplicative increase at the low threshold. -/
  lowGain : α
  /-- The bounds of the gains. -/
  tables : WindowTables α

namespace Coded

variable {α : Type}

section

variable [Scalar α]

def start (config : SenderConfig α) (tables : WindowTables α) : Coded α where
  toWindowState := .start config
  phase := .none
  lowGain := config.k * (100.0 / Scalar.ofNat LoadCode.lowThreshold - 1.0)
  tables := tables

/-- Returns to the initial window, out of any hold-down. -/
def reset (c : Coded α) : Coded α :=
  { c with toWindowState := c.toWindowState.reset, phase := .none }

/-- Why an acknowledgment cannot be used: it is none, or it carries no code. -/
def check (p : Packet) : Except Fault LoadCode :=
  if p.isData then .error .invalidPacket
  else
    match p.feedback.code? with
    | some code => .ok code
    | none => .error (.invalidFeedback p.feedback.value.toNat)

/-- For how long the window is frozen after a cut: about one measurement interval of the links. -/
def freezeSpan (c : Coded α) : Span :=
  Span.roundTo α timerGranule .up c.config.linkInterval

/-- For how long the window only grows by terms after the freeze: about one round trip. -/
def cautionSpan (c : Coded α) : Span :=
  Span.roundTo α timerGranule .up c.scaling.roundTrip

/-- The action for a code in the current phase. -/
def choose (c : Coded α) : LoadCode → Action
  | .low => .increase
  | .high => .add
  | .over =>
    match c.phase with
    | .none => .decrease
    | .first => .freeze
    | .second => .add

def holdDown (c : Coded α) (now : Instant) : Coded α :=
  { c with phase := .first, timers := c.timers.setAfter .holdDownFirst now c.freezeSpan }

/-- The additive term, bounded by the tables if the sender asks for it. -/
def addition (c : Coded α) : α :=
  if c.config.limiter then Scalar.min c.additiveTerm (c.tables.limiterAt c.window)
  else c.additiveTerm

/-- Cuts the window, not below one packet. -/
def cut (c : Coded α) : Coded α :=
  { c with
    window := Scalar.max (c.window * c.config.beta) WindowState.minWindow
    tally := { c.tally with cuts := c.tally.cuts + 1 } }

/-- Delivers a timer, which is disarmed first. The answer says whether a paced packet may leave. A
hold-down timer is refused in a phase that did not arm it. -/
def onTimer (c : Coded α) (timer : Timer) (now : Instant) : Attempt (Coded α) Bool :=
  let c := { c with timers := c.timers.stop timer }
  match timer, c.phase with
  | .holdDownFirst, .first =>
    (.ok false,
      { c with
        phase := .second
        tally := { c.tally with holdDownTimeouts := c.tally.holdDownTimeouts + 1 }
        timers := c.timers.setAfter .holdDownSecond now c.cautionSpan })
  | .holdDownSecond, .second =>
    (.ok false,
      { c with
        phase := .none
        tally := { c.tally with holdDownTimeouts := c.tally.holdDownTimeouts + 1 } })
  | .pacing, _ => (.ok true, c)
  | timer, phase => (.error (.expiredInPhase timer phase), c)

/-- Delivers those of the listed timers that are due when their turn comes, up to the first that is
refused. The answer says whether any of them lets a paced packet leave. -/
def deliver (c : Coded α) (now : Instant) : List Timer → Bool → Attempt (Coded α) Bool
  | [], release => (.ok release, c)
  | timer :: rest, release =>
    if c.timers.isExpired timer now then
      match c.onTimer timer now with
      | (.ok more, c) => c.deliver now rest (release || more)
      | (.error fault, c) => (.error fault, c)
    else c.deliver now rest release

def onTimeout (c : Coded α) (now : Instant) : Attempt (Coded α) Bool :=
  c.deliver now [.holdDownFirst, .holdDownSecond, .pacing] false

end

variable [PowerScalar α]

/-- The term of a multiplicative increase: the gain compounded over the part of a measurement
interval that the round trip takes. -/
def multiplication (c : Coded α) : α :=
  let gain := Scalar.min c.lowGain (c.tables.increaseAt c.window)
  PowerScalar.pow (1.0 + gain) c.scaling.exponent - 1.0

/-- Takes an action. A decrease enters the freeze. -/
def act (c : Coded α) (action : Action) (now : Instant) : Coded α :=
  match action with
  | .increase => { c with toWindowState := c.grow c.multiplication }
  | .add => { c with toWindowState := c.grow c.addition }
  | .decrease => (c.holdDown now).cut
  | .freeze => c

/-- Takes the action for a code and counts it. -/
def respond (c : Coded α) (code : LoadCode) (now : Instant) : Coded α :=
  let action := c.choose code
  let c := c.act action now
  { c with action := action, tally := c.tally.count action }

def onAck (c : Coded α) (p : Packet) (now : Instant) : Attempt (Coded α) LoadCode :=
  match check p with
  | .ok code => (.ok code, c.respond code now)
  | .error fault => (.error fault, c)

end Coded

end LoadFeedback
