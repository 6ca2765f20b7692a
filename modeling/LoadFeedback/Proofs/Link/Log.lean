import LoadFeedback.Proofs.Link.Event
import LoadFeedback.Proofs.Timetable

/-! A log of what a link counts, interval by interval since it was last reset. Whatever drives a link,
an event does at most two things to its load: it counts a packet or a queue sample, and it ends the
interval. -/
namespace LoadFeedback

/-- One thing that a link counts. -/
inductive Count where
  /-- A packet of this size arrived. -/
  | offered (size : Nat)
  /-- The queue was sampled at this length, in bytes. -/
  | sampled (queueBytes : Nat)
  deriving DecidableEq, Repr

namespace Count

def size? : Count → Option Nat
  | offered size => some size
  | sampled _ => none

def queueBytes? : Count → Option Nat
  | offered _ => none
  | sampled queueBytes => some queueBytes

/-- The sizes of the packets that arrived. -/
def sizes (counts : List Count) : List Nat := counts.filterMap size?

/-- The lengths at which the queue was sampled. -/
def samples (counts : List Count) : List Nat := counts.filterMap queueBytes?

@[simp] theorem sizes_nil : sizes [] = [] := rfl

@[simp] theorem samples_nil : samples [] = [] := rfl

@[simp] theorem sizes_offered (size : Nat) : sizes [.offered size] = [size] := rfl

@[simp] theorem sizes_sampled (queueBytes : Nat) : sizes [.sampled queueBytes] = [] := rfl

@[simp] theorem samples_offered (size : Nat) : samples [.offered size] = [] := rfl

@[simp] theorem samples_sampled (queueBytes : Nat) :
    samples [.sampled queueBytes] = [queueBytes] := rfl

@[simp] theorem sizes_append (counts more : List Count) :
    sizes (counts ++ more) = sizes counts ++ sizes more :=
  List.filterMap_append

@[simp] theorem samples_append (counts more : List Count) :
    samples (counts ++ more) = samples counts ++ samples more :=
  List.filterMap_append

end Count

/-- An interval that ended with a measurement. -/
structure Measurement (α : Type) where
  /-- What was counted in the interval. -/
  counts : List Count
  start : Instant
  finish : Instant
  /-- What the link knew before. -/
  before : Reading α
  /-- What it published from then on. -/
  after : Reading α

/-- The intervals of a link since it was last reset. -/
structure MeterLog (α : Type) where
  /-- The intervals that ended, the first one first. -/
  past : List (Measurement α)
  /-- What was counted since. -/
  counts : List Count
  /-- When the present interval began. -/
  start : Instant

/-- What becomes of the present interval. -/
inductive Ending where
  | goesOn
  /-- It ends with a measurement. -/
  | measured (now : Instant)
  /-- It is forgotten, with all before it. -/
  | reset (now : Instant)

namespace MeterLog

variable {α : Type}

def empty (now : Instant) : MeterLog α := ⟨[], [], now⟩

/-- Everything that was counted since the reset. -/
def allCounts (log : MeterLog α) : List Count := log.past.flatMap (·.counts) ++ log.counts

end MeterLog

namespace Meter

variable {α : Type} [Scalar α]

/-- What an event counts. The delivery of all due timers samples the queue if it is time to. -/
def counted? (m : Meter α) : MeterEvent α → Option Count
  | .arrival size => some (.offered size)
  | .sample queueBytes | .timer .queueSampling _ queueBytes => some (.sampled queueBytes)
  | .timeout now queueBytes =>
    if m.timers.isExpired .queueSampling now then some (.sampled queueBytes) else none
  | _ => none

/-- What an event means for the interval. An interval without length goes on. -/
def ending (m : Meter α) : MeterEvent α → Ending
  | .measure now | .timer .loadMeasurement now _ =>
    if m.elapsed now = 0 then .goesOn else .measured now
  | .timeout now _ =>
    if m.timers.isExpired .loadMeasurement now ∧ m.elapsed now ≠ 0 then .measured now else .goesOn
  | .reset now => .reset now
  | _ => .goesOn

omit [Scalar α] in
theorem eq_reset_of_ending {m : Meter α} {event : MeterEvent α} {now : Instant}
    (h : m.ending event = .reset now) : event = .reset now := by
  cases event with
  | reset now => cases h; rfl
  | measure now | timeout now queueBytes =>
      simp only [ending] at h
      split at h <;> cases h
  | timer timer now queueBytes =>
      cases timer with
      | loadMeasurement =>
          simp only [ending] at h
          split at h <;> cases h
      | queueSampling | holdDownFirst | holdDownSecond | pacing => cases h
  | arrival | sample | capacity | close => cases h

def count (m : Meter α) : Option Count → Meter α
  | some (.offered size) => m.onArrival size
  | some (.sampled queueBytes) => m.sampleQueue queueBytes
  | none => m

/-- Everything that an event can do to a measurement, but for its timers. -/
inductive Proceeds (m : Meter α) : MeterEvent α → Meter α → Prop where
  | counted {event : MeterEvent α} (goesOn : m.ending event = .goesOn) (timers : Timetable) :
      Proceeds m event { m.count (m.counted? event) with timers := timers }
  | measured {event : MeterEvent α} {now : Instant} (ends : m.ending event = .measured now)
      (h : 0 < m.elapsed now) (timers : Timetable) :
      Proceeds m event { (m.count (m.counted? event)).measured now with timers := timers }
  | capacity (capacity : α) : Proceeds m (.capacity capacity) (m.setCapacity capacity).2
  | reset (now : Instant) : Proceeds m (.reset now) (m.reset now)

omit [Scalar α] in
/-- Counting changes the counters alone. -/
theorem count_eq (m : Meter α) (c : Option Count) : ∃ load queueSum queueSamples,
    m.count c = { m with reading := { m.reading with
      load := load, queueSum := queueSum, queueSamples := queueSamples } } := by
  rcases c with _ | ⟨_ | _⟩ <;> exact ⟨_, _, _, rfl⟩

/-- The measurement after an attempt to end the interval. -/
def attempted (m : Meter α) (now : Instant) : Meter α :=
  if m.elapsed now = 0 then m else m.measured now

theorem measure_snd (m : Meter α) (now : Instant) : (m.measure now).2 = m.attempted now := by
  unfold measure attempted
  split <;> rfl

theorem onTimer_loadMeasurement_snd (m : Meter α) (now : Instant) (queueBytes : Nat) :
    (m.onTimer .loadMeasurement now queueBytes).2 = m.attempted now := by
  rw [← measure_snd, onTimer]
  split <;> simp [*]

/-- The measurement after its timer for samples ran out, if it is due. -/
def resampled (m : Meter α) (now : Instant) (queueBytes : Nat) : Meter α :=
  if m.timers.isExpired .queueSampling now then
    { m.sampleQueue queueBytes with
      timers := m.timers.setAfter .queueSampling now m.samplingInterval }
  else m

omit [Scalar α] in
@[simp] theorem intervalStart_resampled (m : Meter α) (now : Instant) (queueBytes : Nat) :
    (m.resampled now queueBytes).intervalStart = m.intervalStart := by
  unfold resampled
  split <;> rfl

omit [Scalar α] in
@[simp] theorem measurementInterval_resampled (m : Meter α) (now : Instant) (queueBytes : Nat) :
    (m.resampled now queueBytes).measurementInterval = m.measurementInterval := by
  unfold resampled
  split <;> rfl

/-- Of two due timers, the one for samples is delivered first. -/
theorem onTimeout_eq (m : Meter α) (now : Instant) (queueBytes : Nat) :
    m.onTimeout now queueBytes =
      if m.timers.isExpired .loadMeasurement now then
        (m.resampled now queueBytes).onTimer .loadMeasurement now queueBytes
      else (.ok (), m.resampled now queueBytes) := by
  have hDue : (m.resampled now queueBytes).timers.isExpired .loadMeasurement now =
      m.timers.isExpired .loadMeasurement now := by
    unfold resampled
    split <;> simp [Timetable.isExpired]
  have hFirst : m.onTimeout now queueBytes =
      (m.resampled now queueBytes).deliver now queueBytes [.loadMeasurement] := by
    rw [onTimeout, deliver, resampled]
    split <;> rfl
  rw [hFirst, deliver, hDue]
  split
  · split <;> simp_all [deliver]
  · rfl

/-- An event that counts something and then tries to end the interval. -/
theorem proceeds_of_attempted {m : Meter α} {event : MeterEvent α} {now : Instant}
    (timers : Timetable)
    (hEnds : m.ending event = if m.elapsed now = 0 then .goesOn else .measured now) :
    m.Proceeds event ({ m.count (m.counted? event) with timers := timers }.attempted now) := by
  have hElapsed : elapsed { m.count (m.counted? event) with timers := timers } now =
      m.elapsed now := by
    obtain ⟨_, _, _, hCount⟩ := m.count_eq (m.counted? event)
    rw [hCount]
    rfl
  rw [attempted, hElapsed]
  split
  · next hZero => exact .counted (hEnds.trans (if_pos hZero)) timers
  · next hPos => exact .measured (hEnds.trans (if_neg hPos)) (Nat.pos_of_ne_zero hPos) _

theorem proceeds_onTimer (m : Meter α) (timer : Timer) (now : Instant) (queueBytes : Nat) :
    m.Proceeds (.timer timer now queueBytes) (m.onTimer timer now queueBytes).2 := by
  cases timer with
  | queueSampling => exact .counted rfl _
  | loadMeasurement =>
      rw [onTimer_loadMeasurement_snd]
      exact proceeds_of_attempted m.timers rfl
  | holdDownFirst | holdDownSecond | pacing => exact .counted rfl m.timers

theorem proceeds_onTimeout (m : Meter α) (now : Instant) (queueBytes : Nat) :
    m.Proceeds (.timeout now queueBytes) (m.onTimeout now queueBytes).2 := by
  have hSampled : m.resampled now queueBytes =
      { m.count (m.counted? (.timeout now queueBytes)) with
        timers := (m.resampled now queueBytes).timers } := by
    simp only [resampled, counted?]
    split <;> rfl
  rw [onTimeout_eq]
  split
  · next hDue =>
      rw [onTimer_loadMeasurement_snd, hSampled]
      refine proceeds_of_attempted _ ?_
      by_cases hZero : m.elapsed now = 0 <;> simp [ending, hDue, hZero]
  · next hAhead =>
      have hOpen : m.ending (.timeout now queueBytes) = .goesOn := by simp [ending, hAhead]
      rw [hSampled]
      exact .counted hOpen _

theorem proceeds_after (m : Meter α) (event : MeterEvent α) : m.Proceeds event (m.after event) := by
  cases event with
  | arrival size => exact .counted rfl m.timers
  | sample queueBytes => exact .counted rfl m.timers
  | measure now =>
      rw [after, measure_snd]
      exact proceeds_of_attempted m.timers rfl
  | capacity capacity => exact .capacity capacity
  | timer timer now queueBytes => exact m.proceeds_onTimer timer now queueBytes
  | timeout now queueBytes => exact m.proceeds_onTimeout now queueBytes
  | reset now => exact .reset now
  | close => exact .counted rfl .empty

/-- The measurement after some events, the first one first. -/
def run (m : Meter α) (events : List (MeterEvent α)) : Meter α := events.foldl after m

end Meter

section

variable {α : Type} [Scalar α]

/-- The log after one more event. -/
def MeterLog.after (log : MeterLog α) (m : Meter α) (event : MeterEvent α) : MeterLog α :=
  let counts := log.counts ++ (m.counted? event).toList
  match m.ending event with
  | .goesOn => { log with counts := counts }
  | .measured now =>
    ⟨log.past ++ [⟨counts, log.start, now, m.reading, (m.after event).reading⟩], [], now⟩
  | .reset now => .empty now

/-- A measurement with its log. -/
structure LoggedMeter (α : Type) where
  meter : Meter α
  log : MeterLog α

namespace LoggedMeter

def start (m : Meter α) : LoggedMeter α := ⟨m, .empty m.intervalStart⟩

def after (g : LoggedMeter α) (event : MeterEvent α) : LoggedMeter α :=
  ⟨g.meter.after event, g.log.after g.meter event⟩

def run (g : LoggedMeter α) (events : List (MeterEvent α)) : LoggedMeter α := events.foldl after g

theorem meter_run (g : LoggedMeter α) (events : List (MeterEvent α)) :
    (g.run events).meter = g.meter.run events := by
  induction events generalizing g with
  | nil => rfl
  | cons event rest ih => exact ih (g.after event)

end LoggedMeter
end

end LoadFeedback
