import LoadFeedback.Timer

/-!
The timers of many components in one queue. Each owner has at most one deadline per timer; setting a
timer again moves it. Timers come out in the order of their deadlines, and those of one instant in
the order of their owners and kinds.
-/

namespace LoadFeedback

/-- A timer of one component. -/
structure TimerKey where
  owner : Nat
  timer : Timer
  deriving DecidableEq, Repr

/-- An armed timer of one component. -/
structure Alarm where
  key : TimerKey
  deadline : Instant
  deriving DecidableEq, Repr

def Alarm.precedes (a b : Alarm) : Bool :=
  if a.deadline = b.deadline then
    if a.key.owner = b.key.owner then a.key.timer.index < b.key.timer.index
    else a.key.owner < b.key.owner
  else a.deadline < b.deadline

/-- Armed timers of many components, the earliest first. -/
structure Schedule where
  /-- The alarms in the order in which they come out. -/
  alarms : List Alarm := []
  deriving DecidableEq, Repr

namespace Schedule

def empty : Schedule := {}

def size (s : Schedule) : Nat := s.alarms.length

def isEmpty (s : Schedule) : Bool := s.alarms.isEmpty

/-- Puts an alarm before the first one that it precedes. -/
def place (a : Alarm) : List Alarm → List Alarm
  | [] => [a]
  | b :: rest => if a.precedes b then a :: b :: rest else b :: place a rest

def cancel (s : Schedule) (key : TimerKey) : Schedule :=
  ⟨s.alarms.filter (·.key ≠ key)⟩

def cancelOwner (s : Schedule) (owner : Nat) : Schedule :=
  ⟨s.alarms.filter (·.key.owner ≠ owner)⟩

/-- Arms a timer for an instant, in place of any earlier deadline of it. -/
def set (s : Schedule) (key : TimerKey) (deadline : Instant) : Schedule :=
  ⟨place ⟨key, deadline⟩ (s.cancel key).alarms⟩

/-- Arms a timer to run for a span. -/
def setAfter (s : Schedule) (key : TimerKey) (span : Span) (now : Instant) : Schedule :=
  s.set key (now + span)

/-- Arms a timer where there is a deadline, and disarms it where there is none. -/
def assign (s : Schedule) (key : TimerKey) : Option Instant → Schedule
  | some deadline => s.set key deadline
  | none => s.cancel key

def deadline? (s : Schedule) (key : TimerKey) : Option Instant :=
  (s.alarms.find? (·.key = key)).map (·.deadline)

def next? (s : Schedule) : Option Instant :=
  s.alarms.head?.map (·.deadline)

/-- How long to wait for the earliest deadline. -/
def remaining? (s : Schedule) (now : Instant) : Option Span :=
  s.next?.map (· - now)

/-- Takes out the earliest timer if it is due. -/
def popDue? (s : Schedule) (now : Instant) : Option (TimerKey × Schedule) :=
  match s.alarms with
  | [] => none
  | a :: rest => if a.deadline ≤ now then some (a.key, ⟨rest⟩) else none

theorem perm_place (a : Alarm) (alarms : List Alarm) : (place a alarms).Perm (a :: alarms) := by
  induction alarms with
  | nil => exact .refl _
  | cons b rest ih =>
    simp only [place]
    split
    · exact .refl _
    · exact (ih.cons b).trans (.swap a b rest)

@[simp] theorem mem_place {a b : Alarm} {alarms : List Alarm} :
    b ∈ place a alarms ↔ b = a ∨ b ∈ alarms := by
  rw [(perm_place a alarms).mem_iff, List.mem_cons]

@[simp] theorem mem_cancel {s : Schedule} {key : TimerKey} {a : Alarm} :
    a ∈ (s.cancel key).alarms ↔ a ∈ s.alarms ∧ a.key ≠ key := by
  simp [cancel]

@[simp] theorem mem_cancelOwner {s : Schedule} {owner : Nat} {a : Alarm} :
    a ∈ (s.cancelOwner owner).alarms ↔ a ∈ s.alarms ∧ a.key.owner ≠ owner := by
  simp [cancelOwner]

@[simp] theorem mem_set {s : Schedule} {key : TimerKey} {deadline : Instant} {a : Alarm} :
    a ∈ (s.set key deadline).alarms ↔
      a = ⟨key, deadline⟩ ∨ a ∈ s.alarms ∧ a.key ≠ key := by
  simp [set]

theorem size_lt_of_popDue? {s rest : Schedule} {now : Instant} {key : TimerKey}
    (h : s.popDue? now = some (key, rest)) : rest.size < s.size := by
  obtain ⟨alarms⟩ := s
  cases alarms with
  | nil => simp [popDue?] at h
  | cons a tail =>
    simp only [popDue?] at h
    split at h
    · cases h
      simp [size]
    · cases h

/-- Takes out every timer that is due, in order. -/
def popAllDue (s : Schedule) (now : Instant) : List TimerKey × Schedule :=
  match _h : s.popDue? now with
  | none => ([], s)
  | some (key, rest) =>
    let (keys, last) := rest.popAllDue now
    (key :: keys, last)
termination_by s.size
decreasing_by exact size_lt_of_popDue? _h

end Schedule

end LoadFeedback
