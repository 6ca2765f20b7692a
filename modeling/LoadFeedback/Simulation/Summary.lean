import LoadFeedback.Fairness
import LoadFeedback.Simulation.Run
import LoadFeedback.Simulation.Statistics

/-!
What a simulation comes to: the lines of its summary, its records, and how it ended.
-/

namespace LoadFeedback.Simulation

/-- A statistic with a fixed number of places. One without a value is not a number. -/
private def statistic (places : Nat) (x : Option Float) : String :=
  match x with
  | some x => Decimal.fixed places x
  | none => "NaN"

/-- What passed over the link, and how much waited for it, at the reports. -/
def linkLines (s : Simulation Float) : List String :=
  let u := s.utilizations.reverse
  let q := s.queueLengths.reverse
  if u.isEmpty then []
  else
    ["bottleneck utilization:",
      "\tmin: " ++ statistic 3 (Statistics.least? u)
        ++ ", max: " ++ statistic 3 (Statistics.greatest? u)
        ++ ", mean: " ++ statistic 3 (Statistics.mean? u)
        ++ ", median: " ++ statistic 3 (Statistics.median? u),
      "bottleneck queue(packets):",
      "\tmean: " ++ statistic 1 (Statistics.mean? q)
        ++ ", p90: " ++ statistic 1 (Statistics.percentile? 90 q)
        ++ ", p99: " ++ statistic 1 (Statistics.percentile? 99 q)
        ++ ", max: " ++ statistic 1 (Statistics.greatest? q)]

/-- The rate of a flow since it began to send, in megabits per second. -/
def rate (s : Simulation Float) (session : Session Float) : Float :=
  let active : Float := match session.startedAt with
    | some t => Span.seconds (s.now - t)
    | none => 0.0
  if 0.0 < active then Float.ofNat session.sink.tally.bytes * 8.0 / active / 1e6 else 0.0

def flowLine (s : Simulation Float) (session : Session Float) : String :=
  let windows := session.windows.reverse
  let tally := session.flow.controller.state.tally
  "flow " ++ toString session.flow.id ++ ": " ++ Decimal.fixed 3 (s.rate session)
    ++ " Mbps, mean cwnd " ++ statistic 2 (Statistics.mean? windows)
    ++ ", sd " ++ statistic 2 ((Statistics.variance? windows).map Float.sqrt)
    ++ ", acks " ++ toString tally.acks ++ ", mi " ++ toString tally.increases
    ++ ", ai " ++ toString tally.additions ++ ", md " ++ toString tally.decreases
    ++ ", frz " ++ toString tally.freezes

def summary (s : Simulation Float) : List String :=
  [toString s.options.flows ++ " flows over " ++ Decimal.plain s.options.capacity ++ " Mbps for "
      ++ Decimal.fixed 1 (Span.seconds s.now) ++ "s, control law " ++ s.options.law.name]
    ++ s.linkLines ++ s.sessions.map s.flowLine
    ++ ["fairness index: " ++ Decimal.fixed 4 (fairnessIndex (s.sessions.map s.rate))
      ++ ", drops: " ++ toString s.link.queue.drops]

/-- The records in the order in which they were made. -/
def records (s : Simulation Float) : List String :=
  s.journal.reverse.map Record.line

/-- What a simulation leaves behind. -/
structure Result where
  failure : Option String
  records : List String
  summary : List String
  deriving DecidableEq, Repr

/-- What a simulation leaves behind that has come so far. -/
def resultOf : Progress Float → Result
  | .finished s => ⟨none, s.records, s.summary⟩
  | .failed fault s => ⟨some fault.message, s.records, []⟩
  | .running s => ⟨some "out of steps", s.records, []⟩

/-- A number of steps that no simulation of practical size takes. -/
def maxSteps : Nat := 1000000000000000000

def perform (o : Options Float) : Result :=
  match build o .standard with
  | .ok s => resultOf (run maxSteps s)
  | .error fault => ⟨some fault.message, [], []⟩

end LoadFeedback.Simulation
