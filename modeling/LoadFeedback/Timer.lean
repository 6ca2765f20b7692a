import LoadFeedback.Time

/-!
The timers of links and senders. A component holds the deadlines of its own timers in a timetable;
whoever drives the component asks for the next deadline and comes back then.
-/

namespace LoadFeedback

/-- What a timer is for. -/
inductive Timer where
  /-- A link adds its queue length to the running sum. -/
  | queueSampling
  /-- A link closes its measurement interval. -/
  | loadMeasurement
  /-- A sender leaves the freeze after a decrease. -/
  | holdDownFirst
  /-- A sender leaves the cautious increase after a freeze. -/
  | holdDownSecond
  /-- A sender releases the next paced packet. -/
  | pacing
  deriving DecidableEq, Repr

namespace Timer

def all : List Timer :=
  [.queueSampling, .loadMeasurement, .holdDownFirst, .holdDownSecond, .pacing]

/-- The place of a timer in that order. -/
def index : Timer → Nat
  | .queueSampling => 0
  | .loadMeasurement => 1
  | .holdDownFirst => 2
  | .holdDownSecond => 3
  | .pacing => 4

def name : Timer → String
  | .queueSampling => "QueueSampling"
  | .loadMeasurement => "LoadMeasurement"
  | .holdDownFirst => "HoldDownFirst"
  | .holdDownSecond => "HoldDownSecond"
  | .pacing => "Pacing"

end Timer

/-- One deadline at most for each timer. -/
structure Timetable where
  queueSampling : Option Instant := none
  loadMeasurement : Option Instant := none
  /-- When the freeze ends. -/
  holdDownFirst : Option Instant := none
  /-- When the cautious increase ends. -/
  holdDownSecond : Option Instant := none
  /-- When the next packet is released. -/
  pacing : Option Instant := none
  deriving DecidableEq, Repr

namespace Timetable

def empty : Timetable := {}

def deadline? (t : Timetable) : Timer → Option Instant
  | .queueSampling => t.queueSampling
  | .loadMeasurement => t.loadMeasurement
  | .holdDownFirst => t.holdDownFirst
  | .holdDownSecond => t.holdDownSecond
  | .pacing => t.pacing

/-- The timetable with another deadline, or none, for one timer. -/
def put (t : Timetable) (timer : Timer) (deadline : Option Instant) : Timetable :=
  match timer with
  | .queueSampling => { t with queueSampling := deadline }
  | .loadMeasurement => { t with loadMeasurement := deadline }
  | .holdDownFirst => { t with holdDownFirst := deadline }
  | .holdDownSecond => { t with holdDownSecond := deadline }
  | .pacing => { t with pacing := deadline }

def set (t : Timetable) (timer : Timer) (deadline : Instant) : Timetable :=
  t.put timer (some deadline)

/-- Arms a timer to run for a span. -/
def setAfter (t : Timetable) (timer : Timer) (now : Instant) (span : Span) : Timetable :=
  t.set timer (now + span)

def stop (t : Timetable) (timer : Timer) : Timetable :=
  t.put timer none

def isPending (t : Timetable) (timer : Timer) : Bool :=
  (t.deadline? timer).isSome

def next? (t : Timetable) : Option Instant :=
  (Timer.all.filterMap t.deadline?).min?

def isExpired (t : Timetable) (timer : Timer) (now : Instant) : Bool :=
  match t.deadline? timer with
  | some deadline => deadline ≤ now
  | none => false

def expired (t : Timetable) (now : Instant) : List Timer :=
  Timer.all.filter (t.isExpired · now)

@[simp] theorem deadline?_put (t : Timetable) (timer other : Timer) (d : Option Instant) :
    (t.put timer d).deadline? other = if other = timer then d else t.deadline? other := by
  cases timer <;> cases other <;> rfl

@[simp] theorem deadline?_empty (timer : Timer) : empty.deadline? timer = none := by
  cases timer <;> rfl

end Timetable

end LoadFeedback
