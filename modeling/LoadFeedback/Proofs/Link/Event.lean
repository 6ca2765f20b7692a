import LoadFeedback.Link.Queue
import LoadFeedback.Proofs.Feedback

/-! What can happen to a link, and what it publishes meanwhile. Whatever happens, a link that encodes
publishes a code from its start on. -/
namespace LoadFeedback

variable {κ α : Type}

/-- Settings that are accepted, and the capacity that they come to. -/
structure LinkConfig.Accepted [Scalar α] (config : LinkConfig α) (capacity : α) : Prop where
  measurementInterval_pos : 0 < config.measurementInterval
  samplingInterval_pos : 0 < config.samplingInterval
  queueWeight_finite : Scalar.isFinite config.queueWeight = true
  queueWeight_nonneg : ¬config.queueWeight < 0.0
  capacity_eq : config.capacity = some capacity
  supported : Link.isSupported capacity = true

theorem LinkConfig.accepted_of_validate [Scalar α] {config : LinkConfig α} {capacity : α}
    (valid : config.validate = .ok capacity) : config.Accepted capacity := by
  unfold validate at valid
  split at valid
  · cases valid
  rename_i hMeasurement
  split at valid
  · cases valid
  rename_i hSampling
  split at valid
  · cases valid
  rename_i hWeight
  split at valid
  · cases valid
  rename_i hCapacity
  split at valid
  · next hSupported =>
      cases valid
      simp only [Bool.or_eq_true, Bool.not_eq_true', decide_eq_true_eq, not_or,
        Bool.not_eq_false] at hWeight
      exact ⟨Nat.pos_of_ne_zero hMeasurement, Nat.pos_of_ne_zero hSampling, hWeight.1, hWeight.2,
        hCapacity, hSupported⟩
  · cases valid

/-- One call on the load measurement of a link. A refused call is an event as well. -/
inductive MeterEvent (α : Type) where
  | arrival (size : Nat)
  | sample (queueBytes : Nat)
  | measure (now : Instant)
  | capacity (capacity : α)
  | timer (timer : Timer) (now : Instant) (queueBytes : Nat)
  | timeout (now : Instant) (queueBytes : Nat)
  | reset (now : Instant)
  | close

namespace Meter

variable [Scalar α]

def after (m : Meter α) : MeterEvent α → Meter α
  | .arrival size => m.onArrival size
  | .sample queueBytes => m.sampleQueue queueBytes
  | .measure now => (m.measure now).2
  | .capacity capacity => (m.setCapacity capacity).2
  | .timer timer now queueBytes => (m.onTimer timer now queueBytes).2
  | .timeout now queueBytes => (m.onTimeout now queueBytes).2
  | .reset now => m.reset now
  | .close => m.close

/-- The measurement after an interval of some length has ended. -/
def measured (m : Meter α) (now : Instant) : Meter α :=
  { m with
    reading := { m.evaluate (m.elapsed now) with load := 0, queueSum := 0, queueSamples := 0 }
    intervalStart := now
    timers := m.timers.setAfter .loadMeasurement now m.measurementInterval }

theorem measure_cases (m : Meter α) (now : Instant) :
    (m.elapsed now = 0 ∧ m.measure now = (.error .emptyInterval, m)) ∨
      (0 < m.elapsed now ∧
        m.measure now = (.ok (m.evaluate (m.elapsed now)).feedback, m.measured now)) := by
  rcases Nat.eq_zero_or_pos (m.elapsed now) with h | h
  · exact Or.inl ⟨h, by simp [measure, h]⟩
  · exact Or.inr ⟨h, by simp [measure, measured, Nat.ne_of_gt h]⟩

/-- Everything that the delivery of a timer can do. -/
inductive Delivers (m : Meter α) (now : Instant) (queueBytes : Nat) :
    Timer → Attempt (Meter α) Unit → Prop where
  | sampled : Delivers m now queueBytes .queueSampling (.ok (),
      { m.sampleQueue queueBytes with
        timers := m.timers.setAfter .queueSampling now m.samplingInterval })
  | measured (h : 0 < m.elapsed now) :
      Delivers m now queueBytes .loadMeasurement (.ok (), m.measured now)
  | tooEarly (h : m.elapsed now = 0) :
      Delivers m now queueBytes .loadMeasurement (.error .emptyInterval, m)
  | unused {timer : Timer} (notSampling : timer ≠ .queueSampling)
      (notMeasurement : timer ≠ .loadMeasurement) :
      Delivers m now queueBytes timer (.error (.unusedByLink timer), m)

theorem delivers_onTimer (m : Meter α) (timer : Timer) (now : Instant) (queueBytes : Nat) :
    Delivers m now queueBytes timer (m.onTimer timer now queueBytes) := by
  cases timer with
  | queueSampling => exact .sampled
  | loadMeasurement =>
      rcases m.measure_cases now with ⟨hElapsed, hResult⟩ | ⟨hElapsed, hResult⟩
      · simp only [onTimer, hResult]
        exact .tooEarly hElapsed
      · simp only [onTimer, hResult]
        exact .measured hElapsed
  | holdDownFirst | holdDownSecond | pacing => exact .unused nofun nofun

theorem onTimer_eq_ok {m next : Meter α} {timer : Timer} {now : Instant} {queueBytes : Nat}
    (h : m.onTimer timer now queueBytes = (.ok (), next)) :
    (timer = .queueSampling ∧ next = { m.sampleQueue queueBytes with
      timers := m.timers.setAfter .queueSampling now m.samplingInterval }) ∨
    (timer = .loadMeasurement ∧ 0 < m.elapsed now ∧ next = m.measured now) := by
  have hStep := delivers_onTimer m timer now queueBytes
  rw [h] at hStep
  cases hStep with
  | sampled => exact Or.inl ⟨rfl, rfl⟩
  | measured hElapsed => exact Or.inr ⟨rfl, hElapsed, rfl⟩

/-- What every delivery keeps, the delivery of all due timers keeps. -/
theorem deliver_keeps {P : Meter α → Prop} {now : Instant} {queueBytes : Nat}
    (hStep : ∀ (m : Meter α) (timer : Timer), P m → P (m.onTimer timer now queueBytes).2)
    (timers : List Timer) (m : Meter α) (h : P m) : P (m.deliver now queueBytes timers).2 := by
  induction timers generalizing m with
  | nil => exact h
  | cons timer rest ih =>
      unfold deliver
      split
      · have hNext := hStep m timer h
        split
        · next next hResult =>
            rw [hResult] at hNext
            exact ih next hNext
        · next fault next hResult =>
            rw [hResult] at hNext
            exact hNext
      · exact ih m h

/-- A link that encodes publishes a code. -/
def PublishesCode (m : Meter α) : Prop :=
  m.encode = true ∧ m.reading.feedback.code? ≠ none

theorem publishesCode_measured {m : Meter α} (h : m.encode = true) (now : Instant) :
    (m.measured now).PublishesCode :=
  ⟨h, by simp [measured, evaluate, publish, h]⟩

theorem publishesCode_reset {m : Meter α} (h : m.encode = true) (now : Instant) :
    (m.reset now).PublishesCode := by
  refine ⟨h, ?_⟩
  simp only [reset, idle, idleFeedback, h]
  decide

theorem PublishesCode.onTimer {m : Meter α} (h : m.PublishesCode) (timer : Timer) (now : Instant)
    (queueBytes : Nat) : (m.onTimer timer now queueBytes).2.PublishesCode := by
  have hStep := delivers_onTimer m timer now queueBytes
  generalize m.onTimer timer now queueBytes = result at hStep ⊢
  cases hStep with
  | sampled => exact h
  | measured _ => exact publishesCode_measured h.1 now
  | tooEarly _ => exact h
  | unused _ _ => exact h

theorem PublishesCode.after {m : Meter α} (h : m.PublishesCode) (event : MeterEvent α) :
    (m.after event).PublishesCode := by
  cases event with
  | arrival size => exact h
  | sample queueBytes => exact h
  | measure now =>
      rcases m.measure_cases now with ⟨_, hResult⟩ | ⟨_, hResult⟩
      · simpa only [Meter.after, hResult] using h
      · simpa only [Meter.after, hResult] using publishesCode_measured h.1 now
  | capacity capacity =>
      simp only [Meter.after, setCapacity]
      split
      · exact h
      · exact h
  | timer timer now queueBytes => exact h.onTimer timer now queueBytes
  | timeout now queueBytes =>
      exact deliver_keeps (fun _ timer hStep => hStep.onTimer timer now queueBytes) _ m h
  | reset now => exact publishesCode_reset h.1 now
  | close => exact h

theorem publishesCode_start {config : LinkConfig α} (h : config.encode = true) (capacity : α)
    (now : Instant) : (start config capacity now).PublishesCode :=
  publishesCode_reset h now

theorem build_eq_ok_iff {config : LinkConfig α} {now : Instant} {m : Meter α} :
    build config now = .ok m ↔
      ∃ capacity, config.validate = .ok capacity ∧ m = start config capacity now := by
  unfold build
  cases config.validate with
  | error fault => simp [Except.map]
  | ok capacity => simp [Except.map, eq_comm]

end Meter

/-- One call on a link with its queue. -/
inductive LinkEvent (α : Type) where
  | enqueue (p : Packet)
  | dequeue
  | arrival (size : Nat)
  | sample
  | measure (now : Instant)
  | capacity (capacity : α)
  | timer (timer : Timer) (now : Instant)
  | timeout (now : Instant)
  | reset (now : Instant)
  | close

namespace MeteredQueue

theorem build_eq_ok_iff [Scalar α] {queue : κ} {config : LinkConfig α} {now : Instant}
    {l : MeteredQueue κ α} : build queue config now = .ok l ↔
      ∃ capacity, config.validate = .ok capacity ∧ l = ⟨queue, .start config capacity now⟩ := by
  unfold build Meter.build
  cases config.validate with
  | error fault => simp [Except.map]
  | ok capacity => simp [Except.map, eq_comm]

theorem meter_of_dequeue? [PacketQueue κ] {l rest : MeteredQueue κ α} {p : Packet}
    (h : l.dequeue? = some (p, rest)) : rest.meter = l.meter := by
  obtain ⟨_, _, hHead⟩ := Option.map_eq_some_iff.mp h
  cases hHead
  rfl

variable [PacketQueue κ] [Scalar α]

def after (l : MeteredQueue κ α) : LinkEvent α → MeteredQueue κ α
  | .enqueue p => (l.enqueue p).2
  | .dequeue => (l.dequeue?.map (·.2)).getD l
  | .arrival size => l.onArrival size
  | .sample => l.sampleQueue
  | .measure now => (l.measure now).2
  | .capacity capacity => (l.setCapacity capacity).2
  | .timer timer now => (l.onTimer timer now).2
  | .timeout now => (l.onTimeout now).2
  | .reset now => l.reset now
  | .close => l.close

/-- The measurement takes part in every event but a departure. -/
theorem meter_after (l : MeteredQueue κ α) (event : LinkEvent α) :
    (l.after event).meter = l.meter ∨ ∃ e, (l.after event).meter = l.meter.after e := by
  cases event with
  | enqueue p => exact Or.inr ⟨.arrival p.size, rfl⟩
  | dequeue =>
      refine Or.inl ?_
      simp only [after, dequeue?]
      cases PacketQueue.dequeue? l.queue <;> rfl
  | arrival size => exact Or.inr ⟨.arrival size, rfl⟩
  | sample => exact Or.inr ⟨.sample (PacketQueue.bytes l.queue), rfl⟩
  | measure now => exact Or.inr ⟨.measure now, rfl⟩
  | capacity capacity => exact Or.inr ⟨.capacity capacity, rfl⟩
  | timer timer now => exact Or.inr ⟨.timer timer now (PacketQueue.bytes l.queue), rfl⟩
  | timeout now => exact Or.inr ⟨.timeout now (PacketQueue.bytes l.queue), rfl⟩
  | reset now => exact Or.inr ⟨.reset now, rfl⟩
  | close => exact Or.inr ⟨.close, rfl⟩

theorem publishesCode_after {l : MeteredQueue κ α} (h : l.meter.PublishesCode)
    (event : LinkEvent α) : (l.after event).meter.PublishesCode := by
  rcases l.meter_after event with hSame | ⟨e, hAfter⟩
  · rwa [hSame]
  · rw [hAfter]
    exact h.after e

end MeteredQueue
end LoadFeedback
