import LoadFeedback.Sender.Coded
import LoadFeedback.Sender.Raw

/-!
A window under one of the two laws, for those who do not care which.
-/

namespace LoadFeedback

/-- A sender's window under the law that its settings ask for. -/
inductive Controller (α : Type) where
  | coded (c : Coded α)
  | raw (r : Raw α)

namespace Controller

variable {α : Type}

def state : Controller α → WindowState α
  | coded c => c.toWindowState
  | raw r => r.toWindowState

/-- The controller with another state of its window. -/
def withState (c : Controller α) (s : WindowState α) : Controller α :=
  match c with
  | coded c => coded { c with toWindowState := s }
  | raw r => raw { r with toWindowState := s }

def name : Controller α → String
  | coded _ => "VCP"
  | raw _ => "VCP-RAW"

def text (c : Controller α) : String :=
  "rate controller " ++ c.name ++ "."

/-- The window in packets. -/
def window (c : Controller α) : α := c.state.window

/-- How far the hold-down has come; the raw law has none. -/
def phase : Controller α → HoldDownPhase
  | coded c => c.phase
  | raw _ => .none

def timeout? (c : Controller α) : Option Instant := c.state.timers.next?

def deadline? (c : Controller α) (timer : Timer) : Option Instant :=
  c.state.timers.deadline? timer

def close (c : Controller α) : Controller α :=
  c.withState c.state.close

def sent (c : Controller α) (paced : Bool) : Controller α :=
  c.withState (c.state.sent paced)

/-- Why an acknowledgment cannot be used, if it cannot. Nothing changes. -/
def check (c : Controller α) (p : Packet) : Except Fault Unit :=
  match c with
  | coded _ => (Coded.check p).map fun _ => ()
  | raw _ => (Raw.check p).map fun _ => ()

section

variable [Scalar α]

/-- A window before the first acknowledgment, without a look at the settings. -/
def start (config : SenderConfig α) (tables : WindowTables α) : Controller α :=
  match config.law with
  | .coded => coded (.start config tables)
  | .raw => raw (.start config)

/-- A window before the first acknowledgment, if the settings can be used. -/
def build (config : SenderConfig α) (tables : WindowTables α) :
    Except (ConfigFault α) (Controller α) :=
  config.validate.map fun _ => start config tables

def reset : Controller α → Controller α
  | coded c => coded c.reset
  | raw r => raw r.reset

def measured (c : Controller α) (estimate : RoundTrip) : Controller α :=
  c.withState (c.state.measured estimate)

/-- Delivers a timer. The answer says whether a paced packet may leave. -/
def onTimer (c : Controller α) (timer : Timer) (now : Instant) : Attempt (Controller α) Bool :=
  match c with
  | coded c => (c.onTimer timer now).map id coded
  | raw r => (r.onTimer timer).map id raw

/-- Delivers every timer that is due. The answer says whether a paced packet may leave. -/
def onTimeout (c : Controller α) (now : Instant) : Attempt (Controller α) Bool :=
  match c with
  | coded c => (c.onTimeout now).map id coded
  | raw r => (r.onTimeout now).map id raw

/-- The interval between two paced packets, or none where the window is sent as a burst. -/
def pacingInterval? (c : Controller α) : Option Span := c.state.pacingInterval?

/-- Arms the pacing timer, if the window is paced, and gives its deadline. -/
def pace (c : Controller α) (now : Instant) : Option Instant × Controller α :=
  (c.state.pace now).map id c.withState

end

variable [PowerScalar α]

def onAck (c : Controller α) (p : Packet) (now : Instant) : Attempt (Controller α) Unit :=
  match c with
  | coded c => (c.onAck p now).map (·.map fun _ => ()) coded
  | raw r => (r.onAck p).map (·.map fun _ => ()) raw

end Controller

end LoadFeedback
