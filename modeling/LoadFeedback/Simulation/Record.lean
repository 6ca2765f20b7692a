import LoadFeedback.Link.Reading
import LoadFeedback.Sender.Law
import LoadFeedback.Simulation.Options

/-!
What a simulation reports while it runs, as facts with the values that belong to them. Each kind of
record has a level and a wording.
-/

namespace LoadFeedback

/-- A record of a simulation. -/
inductive Record (α : Type) where
  /-- The capacity of the link was set, in bits per second, and its target follows. -/
  | capacity (capacity target : α)
  /-- A flow was set up, with a round trip in milliseconds. -/
  | planned (flow roundTrip : Nat)
  | started (flow : Nat)
  /-- The queue had no room for a packet. -/
  | queueFull (seq flow : Nat)
  | dropped (flow seq : Nat)
  /-- The link ended a measurement interval of some length, in which so many bytes arrived. -/
  | measured (load : Nat) (meanQueue : α) (elapsed : Span) (reading : Reading α)
  /-- A window took a code. -/
  | codeTaken (seq : Nat) (code : LoadCode) (phase : HoldDownPhase) (action : Action) (window : α)
  /-- A window took a load factor, in hundredths of a percent. -/
  | factorTaken (seq loadFactor : Nat) (change window : α)
  /-- A freeze ended, and the window only grows by terms for a span. -/
  | freezeOver (caution : Span)
  /-- A hold-down ended. -/
  | holdDownOver (window : α)
  /-- How the link and the windows are at an instant. -/
  | progress (now : Instant) (utilization : α) (queued : Nat) (loadFactor : α) (windows : List α)

namespace Record

def level {α : Type} : Record α → Level
  | capacity .. | planned .. | queueFull .. | freezeOver _ | holdDownOver _ => .debug
  | started _ | progress .. => .info
  | dropped .. => .warn
  | measured .. | codeTaken .. | factorTaken .. => .trace

/-- The windows of the flows, each after the number of its flow. -/
private def windowTexts (windows : List Float) : String :=
  " ".intercalate <| windows.zipIdx.map fun (window, i) =>
    toString (i + 1) ++ ":" ++ Decimal.fixed 2 window

def text : Record Float → String
  | capacity bits target =>
    "VCP-ROUTER. capacity " ++ Decimal.plain bits ++ " bps target utilization "
      ++ Decimal.fixed 3 target
  | planned flow roundTrip =>
    "flow " ++ toString flow ++ " rtt " ++ toString roundTrip ++ "ms starts after 0ms"
  | started flow => "flow " ++ toString flow ++ " started"
  | queueFull seq flow =>
    "drop packet " ++ toString seq ++ " of flow " ++ toString flow ++ ", queue full"
  | dropped flow seq =>
    "flow " ++ toString flow ++ " packet " ++ toString seq ++ " dropped at the bottleneck"
  | measured load meanQueue elapsed reading =>
    "VCP-ROUTER. interval " ++ toString reading.intervals ++ " load " ++ toString load
      ++ " avg_queue " ++ Decimal.fixed 1 meanQueue ++ " elapsed " ++ Span.text elapsed ++ ": "
      ++ reading.text
  | codeTaken seq code phase action window =>
    "VCP. ack " ++ toString seq ++ " code " ++ code.name ++ " phase " ++ phase.name ++ " action "
      ++ action.name ++ " cwnd " ++ Decimal.fixed 3 window
  | factorTaken seq loadFactor change window =>
    "VCP-RAW. ack " ++ toString seq ++ " load factor " ++ toString loadFactor ++ " change "
      ++ Decimal.fixed 4 change ++ " cwnd " ++ Decimal.fixed 3 window
  | freezeOver caution => "VCP. hold-down second phase for " ++ Span.text caution
  | holdDownOver window => "VCP. hold-down over, cwnd " ++ Decimal.fixed 3 window
  | progress now utilization queued loadFactor windows =>
    "t=" ++ Decimal.fixed 1 (Span.seconds now) ++ "s util " ++ Decimal.fixed 3 utilization
      ++ " queue " ++ toString queued ++ " lf " ++ Decimal.fixed 1 loadFactor
      ++ " cwnd [" ++ windowTexts windows ++ "]"

def line (r : Record Float) : String :=
  r.level.name ++ " " ++ r.text

end Record

end LoadFeedback
