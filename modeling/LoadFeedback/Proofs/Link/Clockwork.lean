import LoadFeedback.Proofs.Link.Accounts
import LoadFeedback.Proofs.Timetable

/-! The clockwork of a measurement. Whatever was done to it, the delivery of all due timers is taken
and leaves none due, and a measurement that is driven by its own timers keeps exact periods. -/
namespace LoadFeedback

variable {α : Type} [Scalar α]

/-- How long a timer of a link runs each time. -/
def LinkConfig.period (config : LinkConfig α) : Timer → Span
  | .queueSampling => config.samplingInterval
  | _ => config.measurementInterval

namespace Meter

omit [Scalar α] in
/-- The timers of a measurement. The one for the interval runs out a period after the interval
began. -/
structure Timed (m : Meter α) (config : LinkConfig α) : Prop where
  samplingInterval_eq : m.samplingInterval = config.samplingInterval
  measurementInterval_eq : m.measurementInterval = config.measurementInterval
  interval_end : ∀ deadline, m.deadline? .loadMeasurement = some deadline →
    deadline = m.intervalStart + config.measurementInterval
  others_idle : ∀ timer, timer ≠ .queueSampling → timer ≠ .loadMeasurement →
    m.deadline? timer = none

theorem onTimer_of_elapsed {m : Meter α} {now : Instant} (h : 0 < m.elapsed now)
    (queueBytes : Nat) : m.onTimer .loadMeasurement now queueBytes = (.ok (), m.measured now) := by
  have hResult : m.measure now = (.ok (m.evaluate (m.elapsed now)).feedback, m.measured now) :=
    if_neg (Nat.ne_of_gt h)
  simp only [onTimer, hResult]

theorem timed_reset {m : Meter α} {config : LinkConfig α}
    (sampling : m.samplingInterval = config.samplingInterval)
    (measurement : m.measurementInterval = config.measurementInterval) (now : Instant) :
    (m.reset now).Timed config where
  samplingInterval_eq := sampling
  measurementInterval_eq := measurement
  interval_end deadline hDeadline := by
    simp only [deadline?, Meter.reset, armed, Timetable.deadline?_setAfter, if_true,
      Option.some.injEq] at hDeadline
    rw [← hDeadline, measurement]
    rfl
  others_idle timer notSampling notMeasurement := by
    simp [deadline?, Meter.reset, armed, notSampling, notMeasurement]

theorem timed_start (config : LinkConfig α) (capacity : α) (now : Instant) :
    (start config capacity now).Timed config := by
  refine timed_reset ?_ ?_ now <;> rfl

namespace Timed

variable {m : Meter α} {config : LinkConfig α}

omit [Scalar α] in
theorem eq_of_armed (h : m.Timed config) {timer : Timer} {deadline : Instant}
    (armed : m.deadline? timer = some deadline) :
    timer = .queueSampling ∨ timer = .loadMeasurement := by
  refine Classical.byContradiction fun hOther => ?_
  obtain ⟨notSampling, notMeasurement⟩ := not_or.mp hOther
  exact absurd ((h.others_idle timer notSampling notMeasurement).symm.trans armed) nofun

omit [Scalar α] in
/-- What leaves the timers and the interval alone. -/
theorem congr (h : m.Timed config) {n : Meter α} (sampling : n.samplingInterval = m.samplingInterval)
    (measurement : n.measurementInterval = m.measurementInterval)
    (start : n.intervalStart = m.intervalStart) (timers : n.timers = m.timers) : n.Timed config where
  samplingInterval_eq := sampling.trans h.samplingInterval_eq
  measurementInterval_eq := measurement.trans h.measurementInterval_eq
  interval_end deadline hDeadline := by
    rw [start]
    rw [deadline?, timers] at hDeadline
    exact h.interval_end deadline hDeadline
  others_idle timer notSampling notMeasurement := by
    rw [deadline?, timers]
    exact h.others_idle timer notSampling notMeasurement

theorem measured (h : m.Timed config) (now : Instant) : (m.measured now).Timed config where
  samplingInterval_eq := h.samplingInterval_eq
  measurementInterval_eq := h.measurementInterval_eq
  interval_end deadline hDeadline := by
    simp only [deadline?, Meter.measured, Timetable.deadline?_setAfter, if_true,
      Option.some.injEq] at hDeadline
    rw [← hDeadline, h.measurementInterval_eq]
    rfl
  others_idle timer notSampling notMeasurement := by
    simpa [deadline?, Meter.measured, notMeasurement] using
      h.others_idle timer notSampling notMeasurement

theorem onTimer (h : m.Timed config) (timer : Timer) (now : Instant) (queueBytes : Nat) :
    (m.onTimer timer now queueBytes).2.Timed config := by
  have hStep := delivers_onTimer m timer now queueBytes
  generalize m.onTimer timer now queueBytes = result at hStep ⊢
  cases hStep with
  | sampled =>
      constructor
      case samplingInterval_eq => exact h.samplingInterval_eq
      case measurementInterval_eq => exact h.measurementInterval_eq
      case interval_end =>
        intro deadline hDeadline
        exact h.interval_end deadline (by simpa [deadline?] using hDeadline)
      case others_idle =>
        intro timer notSampling notMeasurement
        simpa [deadline?, notSampling] using h.others_idle timer notSampling notMeasurement
  | measured _ => exact h.measured now
  | tooEarly _ => exact h
  | unused _ _ => exact h

theorem after (h : m.Timed config) (event : MeterEvent α) : (m.after event).Timed config := by
  cases event with
  | arrival size => exact h.congr rfl rfl rfl rfl
  | sample queueBytes => exact h.congr rfl rfl rfl rfl
  | measure now =>
      rcases m.measure_cases now with ⟨_, hResult⟩ | ⟨_, hResult⟩
      · simpa only [Meter.after, hResult] using h
      · simpa only [Meter.after, hResult] using h.measured now
  | capacity capacity =>
      simp only [Meter.after, setCapacity]
      split
      · exact h.congr rfl rfl rfl rfl
      · exact h
  | timer timer now queueBytes => exact h.onTimer timer now queueBytes
  | timeout now queueBytes =>
      exact deliver_keeps (P := (Timed · config))
        (fun _ timer hStep => hStep.onTimer timer now queueBytes) _ m h
  | reset now => exact timed_reset h.samplingInterval_eq h.measurementInterval_eq now
  | close =>
      have hIdle (timer : Timer) : m.close.deadline? timer = none := Timetable.deadline?_empty timer
      refine ⟨h.samplingInterval_eq, h.measurementInterval_eq, fun deadline hDeadline => ?_,
        fun timer _ _ => hIdle timer⟩
      cases (hIdle _).symm.trans hDeadline

theorem run (h : m.Timed config) (events : List (MeterEvent α)) : (m.run events).Timed config := by
  induction events generalizing m with
  | nil => exact h
  | cons event rest ih => exact ih (h.after event)

omit [Scalar α] in
theorem deadline?_resampled (h : m.Timed config) (now : Instant) (queueBytes : Nat) (timer : Timer) :
    (m.resampled now queueBytes).deadline? timer =
      if timer = .queueSampling ∧ m.timers.isExpired .queueSampling now then
        some (now + config.samplingInterval)
      else m.deadline? timer := by
  unfold resampled
  split
  · next hDue => simp [deadline?, hDue, h.samplingInterval_eq]
  · next hAhead => simp [hAhead]

omit [Scalar α] in
/-- An interval whose end is due has some length. -/
theorem elapsed_pos (h : m.Timed config) (hPeriod : 0 < config.measurementInterval) {now : Instant}
    (hDue : m.timers.isExpired .loadMeasurement now = true) : 0 < m.elapsed now := by
  obtain ⟨deadline, hDeadline, hPast⟩ := Timetable.isExpired_iff.mp hDue
  refine Nat.sub_pos_of_lt (Nat.lt_of_lt_of_le ?_ hPast)
  rw [h.interval_end deadline hDeadline]
  exact Nat.lt_add_of_pos_right hPeriod

/-- No delivery is refused. Each due timer is armed for one more period, and no other one is
touched. -/
theorem onTimeout (h : m.Timed config) (hPeriod : 0 < config.measurementInterval) (now : Instant)
    (queueBytes : Nat) :
    ∃ next, m.onTimeout now queueBytes = (.ok (), next) ∧ ∀ timer, next.deadline? timer =
      if m.timers.isExpired timer now then some (now + config.period timer)
      else m.deadline? timer := by
  have hIdle (timer : Timer) (notSampling : timer ≠ .queueSampling)
      (notMeasurement : timer ≠ .loadMeasurement) : m.timers.isExpired timer now = false := by
    have hNone := h.others_idle timer notSampling notMeasurement
    simp [Timetable.isExpired, show m.timers.deadline? timer = none from hNone]
  rw [onTimeout_eq]
  split
  · next hDue =>
      have hElapsed : 0 < (m.resampled now queueBytes).elapsed now := by
        rw [elapsed, intervalStart_resampled]
        exact h.elapsed_pos hPeriod hDue
      refine ⟨_, onTimer_of_elapsed hElapsed queueBytes, fun timer => ?_⟩
      have hSampled := h.deadline?_resampled now queueBytes timer
      have hInterval := h.measurementInterval_eq
      unfold deadline? at hSampled ⊢
      cases timer with
      | queueSampling => simpa [Meter.measured, LinkConfig.period] using hSampled
      | loadMeasurement => simp [Meter.measured, hInterval, hDue, LinkConfig.period]
      | holdDownFirst | holdDownSecond | pacing => simpa [Meter.measured, hIdle] using hSampled
  · next hAhead =>
      refine ⟨_, rfl, fun timer => ?_⟩
      rw [h.deadline?_resampled]
      cases timer with
      | queueSampling => simp [LinkConfig.period]
      | loadMeasurement => simp [hAhead]
      | holdDownFirst | holdDownSecond | pacing => simp [hIdle]

end Timed

omit [Scalar α] in
/-- Where nothing was due, or was armed for one more period, the next deadline lies ahead. -/
theorem lt_timeout? {m next : Meter α} {config : LinkConfig α} {now : Instant}
    (hPeriod : ∀ timer, 0 < config.period timer)
    (hNext : ∀ timer, next.deadline? timer =
      if m.timers.isExpired timer now then some (now + config.period timer) else m.deadline? timer)
    {deadline : Instant} (h : next.timeout? = some deadline) : now < deadline := by
  refine Timetable.lt_of_next? (fun timer => ?_) h
  refine Bool.eq_false_iff.mpr fun hDue => ?_
  obtain ⟨late, hLate, hPast⟩ := Timetable.isExpired_iff.mp hDue
  have hDeadline := (hNext timer).symm.trans hLate
  split at hDeadline
  · cases hDeadline
    exact Nat.not_le_of_lt (Nat.lt_add_of_pos_right (hPeriod timer)) hPast
  · next hAhead => exact hAhead (Timetable.isExpired_iff.mpr ⟨late, hDeadline, hPast⟩)

end Meter

namespace Span

/-- When a clock that has ticked once in every period so far ticks next. -/
def nextTick (period elapsed : Span) : Span := (elapsed / period + 1) * period

variable {period elapsed later : Span}

theorem lt_nextTick (hPeriod : 0 < period) (elapsed : Span) : elapsed < nextTick period elapsed := by
  rw [nextTick, Nat.mul_comm]
  exact Nat.lt_mul_div_succ elapsed hPeriod

/-- Until its next tick, a clock has ticked as often as before, and then once more. -/
theorem div_of_le_nextTick (hPeriod : 0 < period) (hLater : elapsed ≤ later)
    (hTick : later ≤ nextTick period elapsed) :
    later / period = if later = nextTick period elapsed then elapsed / period + 1
      else elapsed / period := by
  split
  · next hNow =>
      rw [hNow]
      exact Nat.mul_div_cancel _ hPeriod
  · next hEarly =>
      refine Nat.le_antisymm ?_ (Nat.div_le_div_right hLater)
      exact Nat.lt_succ_iff.mp ((Nat.div_lt_iff_lt_mul hPeriod).mpr (Nat.lt_of_le_of_ne hTick hEarly))

theorem nextTick_of_le_nextTick (hPeriod : 0 < period) (hLater : elapsed ≤ later)
    (hTick : later ≤ nextTick period elapsed) :
    nextTick period later =
      if later = nextTick period elapsed then later + period else nextTick period elapsed := by
  rw [nextTick, div_of_le_nextTick hPeriod hLater hTick]
  split
  · next hNow => rw [hNow, Nat.succ_mul, nextTick]
  · rfl

end Span

namespace Meter

/-- A measurement that is driven by its own timers: any packets may arrive, and whenever a timer runs
out, all due timers are delivered at this very instant. -/
inductive Driven : Meter α → List (MeterEvent α) → Prop where
  | done (m : Meter α) : Driven m []
  | arrival {m : Meter α} {rest : List (MeterEvent α)} (size : Nat)
      (driven : Driven (m.after (.arrival size)) rest) : Driven m (.arrival size :: rest)
  | timeout {m : Meter α} {rest : List (MeterEvent α)} {now : Instant} (queueBytes : Nat)
      (due : m.timeout? = some now) (driven : Driven (m.after (.timeout now queueBytes)) rest) :
      Driven m (.timeout now queueBytes :: rest)

/-- Both clocks of a measurement tick in their periods since its reset. -/
structure Ticks (m : Meter α) (config : LinkConfig α) (start : Instant) (elapsed : Span) : Prop where
  timed : m.Timed config
  sampling : m.deadline? .queueSampling =
    some (start + Span.nextTick config.samplingInterval elapsed)
  measurement : m.deadline? .loadMeasurement =
    some (start + Span.nextTick config.measurementInterval elapsed)

theorem Timed.ticks_reset {m : Meter α} {config : LinkConfig α} (h : m.Timed config)
    (now : Instant) : (m.reset now).Ticks config now 0 where
  timed := timed_reset h.samplingInterval_eq h.measurementInterval_eq now
  sampling := by
    simp [deadline?, Meter.reset, armed, h.samplingInterval_eq, Span.nextTick]
  measurement := by
    simp [deadline?, Meter.reset, armed, h.measurementInterval_eq, Span.nextTick]

namespace Ticks

variable {m : Meter α} {config : LinkConfig α} {start now : Instant} {elapsed : Span}

omit [Scalar α] in
/-- The next timer runs out later, but at no later instant than the next tick of either clock. -/
theorem due_cases (h : m.Ticks config start elapsed) (hSampling : 0 < config.samplingInterval)
    (hMeasurement : 0 < config.measurementInterval) (due : m.timeout? = some now) :
    ∃ later, now = start + later ∧ elapsed < later ∧
      later ≤ Span.nextTick config.samplingInterval elapsed ∧
      later ≤ Span.nextTick config.measurementInterval elapsed := by
  have hFirst := Timetable.next?_le due h.sampling
  have hSecond := Timetable.next?_le due h.measurement
  obtain ⟨timer, hTimer⟩ := Timetable.exists_of_next? due
  have hTick : ∃ later, now = start + later ∧ elapsed < later := by
    rcases h.timed.eq_of_armed hTimer with rfl | rfl
    · exact ⟨_, Option.some.inj (hTimer.symm.trans h.sampling), Span.lt_nextTick hSampling _⟩
    · exact ⟨_, Option.some.inj (hTimer.symm.trans h.measurement), Span.lt_nextTick hMeasurement _⟩
  obtain ⟨later, rfl, hLater⟩ := hTick
  exact ⟨later, rfl, hLater, Nat.le_of_add_le_add_left hFirst, Nat.le_of_add_le_add_left hSecond⟩

theorem arrival (h : m.Ticks config start elapsed) (size : Nat) :
    (m.after (.arrival size)).Ticks config start elapsed :=
  ⟨h.timed.after _, h.sampling, h.measurement⟩

omit [Scalar α] in
theorem isExpired_iff {timer : Timer} {period later : Span}
    (armed : m.deadline? timer = some (start + Span.nextTick period elapsed))
    (hTick : later ≤ Span.nextTick period elapsed) :
    m.timers.isExpired timer (start + later) = true ↔ later = Span.nextTick period elapsed := by
  rw [Timetable.isExpired_iff]
  constructor
  · rintro ⟨deadline, hDeadline, hPast⟩
    obtain rfl := Option.some.inj (hDeadline.symm.trans armed)
    exact Nat.le_antisymm hTick (Nat.le_of_add_le_add_left hPast)
  · rintro rfl
    exact ⟨_, armed, Nat.le_refl _⟩

theorem timeout (h : m.Ticks config start elapsed) (hSampling : 0 < config.samplingInterval)
    (hMeasurement : 0 < config.measurementInterval) {later : Span} (hLater : elapsed ≤ later)
    (hSample : later ≤ Span.nextTick config.samplingInterval elapsed)
    (hInterval : later ≤ Span.nextTick config.measurementInterval elapsed) (queueBytes : Nat) :
    (m.after (.timeout (start + later) queueBytes)).Ticks config start later := by
  obtain ⟨next, hResult, hNext⟩ := h.timed.onTimeout hMeasurement (start + later) queueBytes
  have hTimed := h.timed.after (.timeout (start + later) queueBytes)
  have hAfter : m.after (.timeout (start + later) queueBytes) = next := congrArg Prod.snd hResult
  rw [hAfter] at hTimed ⊢
  have hMoves (timer : Timer) (hPeriod : 0 < config.period timer)
      (armed : m.deadline? timer = some (start + Span.nextTick (config.period timer) elapsed))
      (hTick : later ≤ Span.nextTick (config.period timer) elapsed) :
      next.deadline? timer = some (start + Span.nextTick (config.period timer) later) := by
    rw [hNext timer, Span.nextTick_of_le_nextTick hPeriod hLater hTick]
    by_cases hNow : later = Span.nextTick (config.period timer) elapsed
    · rw [if_pos ((isExpired_iff armed hTick).mpr hNow), if_pos hNow, Nat.add_assoc]
    · rw [if_neg (mt (isExpired_iff armed hTick).mp hNow), if_neg hNow, armed]
  exact ⟨hTimed, hMoves .queueSampling hSampling h.sampling hSample,
    hMoves .loadMeasurement hMeasurement h.measurement hInterval⟩

end Ticks
end Meter

/-- A measurement whose intervals end in exact periods since its reset, and whose queue was sampled in
exact periods as well. -/
structure LoggedMeter.KeepsTime (g : LoggedMeter α) (config : LinkConfig α) (start : Instant)
    (elapsed : Span) : Prop where
  ticks : g.meter.Ticks config start elapsed
  past_eq : g.log.past.length = elapsed / config.measurementInterval
  /-- The samples of the present interval, and those before it. -/
  samples_eq : (Count.samples g.log.counts).length +
    elapsed / config.measurementInterval * config.measurementInterval / config.samplingInterval =
      elapsed / config.samplingInterval
  periodic : ∀ place x, g.log.past[place]? = some x →
    x.finish = start + (place + 1) * config.measurementInterval ∧
    (Count.samples x.counts).length =
      (place + 1) * config.measurementInterval / config.samplingInterval -
        place * config.measurementInterval / config.samplingInterval

theorem LoggedMeter.keepsTime_reset {m : Meter α} {config : LinkConfig α} (h : m.Timed config)
    (now : Instant) : (start (m.reset now)).KeepsTime config now 0 := by
  refine ⟨h.ticks_reset now, ?_, ?_, ?_⟩ <;> simp [start, MeterLog.empty]

namespace LoggedMeter.KeepsTime

variable {g : LoggedMeter α} {config : LinkConfig α} {start : Instant} {elapsed : Span}

theorem arrival (h : g.KeepsTime config start elapsed) (size : Nat) :
    (g.after (.arrival size)).KeepsTime config start elapsed where
  ticks := h.ticks.arrival size
  past_eq := h.past_eq
  samples_eq := by
    simpa [LoggedMeter.after, MeterLog.after, Meter.ending, Meter.counted?] using h.samples_eq
  periodic := h.periodic

omit [Scalar α] in
/-- The samples of an interval, when all timers that are due have been delivered. -/
theorem counted (h : g.KeepsTime config start elapsed) (hSampling : 0 < config.samplingInterval)
    {later : Span} (hLater : elapsed ≤ later)
    (hSample : later ≤ Span.nextTick config.samplingInterval elapsed) (queueBytes : Nat) :
    (Count.samples (g.log.counts ++
      (g.meter.counted? (.timeout (start + later) queueBytes)).toList)).length +
      elapsed / config.measurementInterval * config.measurementInterval / config.samplingInterval =
        later / config.samplingInterval := by
  have hSamples := h.samples_eq
  have hDue := Meter.Ticks.isExpired_iff h.ticks.sampling hSample
  rw [Span.div_of_le_nextTick hSampling hLater hSample, Meter.counted?]
  by_cases hNow : later = Span.nextTick config.samplingInterval elapsed
  · rw [if_pos (hDue.mpr hNow), if_pos hNow]
    simp only [Option.toList_some, Count.samples_append, Count.samples_sampled, List.length_append,
      List.length_singleton]
    omega
  · rw [if_neg (mt hDue.mp hNow), if_neg hNow, Option.toList_none, List.append_nil]
    exact hSamples

theorem timeout (h : g.KeepsTime config start elapsed) (hSampling : 0 < config.samplingInterval)
    (hMeasurement : 0 < config.measurementInterval) {later : Span} (hLater : elapsed ≤ later)
    (hSample : later ≤ Span.nextTick config.samplingInterval elapsed)
    (hInterval : later ≤ Span.nextTick config.measurementInterval elapsed) (queueBytes : Nat) :
    (g.after (.timeout (start + later) queueBytes)).KeepsTime config start later := by
  have hTicks := h.ticks.timeout hSampling hMeasurement hLater hSample hInterval queueBytes
  have hCounted := h.counted hSampling hLater hSample queueBytes
  have hDue := Meter.Ticks.isExpired_iff h.ticks.measurement hInterval
  have hDiv := Span.div_of_le_nextTick hMeasurement hLater hInterval
  unfold LoggedMeter.after MeterLog.after
  by_cases hNow : later = Span.nextTick config.measurementInterval elapsed
  · have hExpired := hDue.mpr hNow
    have hElapsed := h.ticks.timed.elapsed_pos hMeasurement hExpired
    have hEnds : g.meter.ending (.timeout (start + later) queueBytes) = .measured (start + later) :=
      if_pos ⟨hExpired, Nat.ne_of_gt hElapsed⟩
    rw [if_pos hNow] at hDiv
    have hWhole : later / config.measurementInterval * config.measurementInterval = later := by
      rw [hDiv, hNow, Span.nextTick]
    rw [hEnds]
    constructor
    case ticks => exact hTicks
    case past_eq => rw [hDiv, ← h.past_eq, List.length_append, List.length_singleton]
    case samples_eq => rw [hWhole, Count.samples_nil, List.length_nil, Nat.zero_add]
    case periodic =>
      intro place x hx
      rcases getElem?_concat_cases hx with hOld | ⟨rfl, rfl⟩
      · exact h.periodic place x hOld
      · rw [h.past_eq, ← hDiv, hWhole]
        exact ⟨rfl, Nat.eq_sub_of_add_eq hCounted⟩
  · have hOpen : g.meter.ending (.timeout (start + later) queueBytes) = .goesOn :=
      if_neg fun hEnds => hNow (hDue.mp hEnds.1)
    rw [if_neg hNow] at hDiv
    rw [hOpen]
    exact ⟨hTicks, h.past_eq.trans hDiv.symm, by rw [hDiv]; exact hCounted, h.periodic⟩

end LoggedMeter.KeepsTime

namespace MeterEvent

/-- How often all due timers were delivered. -/
def timeouts (events : List (MeterEvent α)) : Nat := events.countP (· matches .timeout ..)

omit [Scalar α] in
theorem timeouts_cons_arrival (size : Nat) (events : List (MeterEvent α)) :
    timeouts (.arrival size :: events) = timeouts events := List.countP_cons_of_neg nofun

omit [Scalar α] in
theorem timeouts_cons_timeout (now : Instant) (queueBytes : Nat) (events : List (MeterEvent α)) :
    timeouts (.timeout now queueBytes :: events) = timeouts events + 1 := List.countP_cons_of_pos rfl

end MeterEvent

namespace LoggedMeter.KeepsTime

variable {g : LoggedMeter α} {config : LinkConfig α} {start : Instant} {elapsed : Span}

/-- Time goes on with every timer that is delivered. -/
theorem run (h : g.KeepsTime config start elapsed) (hSampling : 0 < config.samplingInterval)
    (hMeasurement : 0 < config.measurementInterval) {events : List (MeterEvent α)}
    (driven : g.meter.Driven events) : ∃ later, elapsed + MeterEvent.timeouts events ≤ later ∧
      (g.run events).KeepsTime config start later := by
  induction events generalizing g elapsed with
  | nil => exact ⟨elapsed, Nat.le_refl _, h⟩
  | cons event rest ih =>
      cases driven with
      | arrival size driven =>
          obtain ⟨later, hLater, hRun⟩ := ih (h.arrival size) driven
          exact ⟨later, by rwa [MeterEvent.timeouts_cons_arrival], hRun⟩
      | timeout queueBytes due driven =>
          obtain ⟨next, rfl, hNext, hSample, hInterval⟩ :=
            h.ticks.due_cases hSampling hMeasurement due
          have hStep := h.timeout hSampling hMeasurement (Nat.le_of_lt hNext) hSample hInterval queueBytes
          obtain ⟨later, hLater, hRun⟩ := ih hStep driven
          refine ⟨later, ?_, hRun⟩
          rw [MeterEvent.timeouts_cons_timeout]
          calc elapsed + (MeterEvent.timeouts rest + 1)
              = elapsed + 1 + MeterEvent.timeouts rest := Nat.add_right_comm _ _ 1
            _ ≤ next + MeterEvent.timeouts rest := Nat.add_le_add_right hNext _
            _ ≤ later := hLater

end LoggedMeter.KeepsTime

/-- Whatever was done to a measurement, its interval ends a period after it began; the delivery of all
due timers is taken, and leaves none due. From any reset on, a measurement that is driven by its own
timers measures in exact periods, and each interval has the samples of all periods that end in it. -/
theorem Meter.timers_keep_time {config : LinkConfig α} {now : Instant} {m : Meter α}
    (built : build config now = .ok m) (events : List (MeterEvent α)) :
    let n := m.run events
    m.reset now = m ∧
    (∀ deadline, n.deadline? .loadMeasurement = some deadline →
      deadline = n.intervalStart + config.measurementInterval) ∧
    (∀ later queueBytes, ∃ next, n.onTimeout later queueBytes = (.ok (), next) ∧
      ∀ deadline, next.timeout? = some deadline → later < deadline) ∧
    ∀ start driven, (n.reset start).Driven driven →
      let g := (LoggedMeter.start (n.reset start)).run driven
      g.meter = (n.reset start).run driven ∧
      (∃ deadline, g.meter.timeout? = some deadline) ∧
      MeterEvent.timeouts driven / config.measurementInterval ≤ g.log.past.length ∧
      g.meter.reading.intervals = g.log.past.length ∧
      ∀ place x, g.log.past[place]? = some x →
        x.Evaluates config ∧
        x.finish = start + (place + 1) * config.measurementInterval ∧
        (Count.samples x.counts).length =
          (place + 1) * config.measurementInterval / config.samplingInterval -
            place * config.measurementInterval / config.samplingInterval := by
  intro n
  obtain ⟨capacity, hValid, rfl⟩ := build_eq_ok_iff.mp built
  have hAccepted := LinkConfig.accepted_of_validate hValid
  have hSampling := hAccepted.samplingInterval_pos
  have hMeasurement := hAccepted.measurementInterval_pos
  have hPeriod (timer : Timer) : 0 < config.period timer := by
    cases timer with
    | queueSampling => exact hSampling
    | loadMeasurement | holdDownFirst | holdDownSecond | pacing => exact hMeasurement
  have hTimed : n.Timed config := (timed_start config capacity now).run events
  refine ⟨rfl, hTimed.interval_end, fun later queueBytes => ?_, fun start driven hDriven => ?_⟩
  · obtain ⟨next, hResult, hNext⟩ := hTimed.onTimeout hMeasurement later queueBytes
    exact ⟨next, hResult, fun deadline => lt_timeout? hPeriod hNext⟩
  · have hSettings : n.Configured config := configured_run config capacity now events
    have hRecords := (LoggedMeter.records_reset hSettings start).run driven
    have hReset := LoggedMeter.keepsTime_reset hTimed start
    obtain ⟨elapsed, hElapsed, hRun⟩ := hReset.run hSampling hMeasurement hDriven
    refine ⟨LoggedMeter.meter_run _ driven, Timetable.exists_next? hRun.ticks.sampling, ?_,
      hRecords.intervals_eq, fun place x hx =>
        ⟨hRecords.evaluates x (List.mem_of_getElem? hx), hRun.periodic place x hx⟩⟩
    rw [hRun.past_eq]
    exact Nat.div_le_div_right (by simpa using hElapsed)

/-- A link that is sampled after every 100 and measured after every 250 milliseconds. The fifth sample
and the end of the second interval are due at the same instant. -/
theorem Meter.second_interval_has_three_samples :
    let config : LinkConfig Float := { LinkConfig.standard with
      capacity := some 1e7, measurementInterval := Span.millis 250, samplingInterval := Span.millis 100 }
    let m := start config 1e7 0
    let n := m.run [.measure 7, .arrival 40, .timeout 3 0, .close]
    let driven : List (MeterEvent Float) := .arrival 1000 ::
      [100, 200, 250, 300, 400, 500].map fun ms => .timeout (5 + Span.millis ms) 0
    let g := (LoggedMeter.start (n.reset 5)).run driven
    build config 0 = .ok m ∧ (n.reset 5).Driven driven ∧ g.log.past.length = 2 ∧
    ∀ x, g.log.past[1]? = some x →
      x.finish = 5 + Span.millis 500 ∧ (Count.samples x.counts).length = 3 := by
  have hValid : { LinkConfig.standard with
      capacity := some (1e7 : Float), measurementInterval := Span.millis 250,
      samplingInterval := Span.millis 100 }.validate = .ok 1e7 := by
    rfl
  intro config m n driven g
  have hBuilt : build config 0 = .ok m := build_eq_ok_iff.mpr ⟨1e7, hValid, rfl⟩
  have hDriven : (n.reset 5).Driven driven :=
    .arrival 1000 (.timeout 0 (by decide +kernel) (.timeout 0 (by decide +kernel)
      (.timeout 0 (by decide +kernel) (.timeout 0 (by decide +kernel)
        (.timeout 0 (by decide +kernel) (.timeout 0 (by decide +kernel) (.done _)))))))
  obtain ⟨_, _, _, hPeriods⟩ := timers_keep_time hBuilt [.measure 7, .arrival 40, .timeout 3 0, .close]
  obtain ⟨_, _, _, _, hPast⟩ := hPeriods 5 driven hDriven
  refine ⟨hBuilt, hDriven, by decide +kernel, fun x hx => ?_⟩
  obtain ⟨_, hFinish, hSamples⟩ := hPast 1 x hx
  have hEnd : 5 + (1 + 1) * Span.millis 250 = 5 + Span.millis 500 := by decide
  have hCount : (1 + 1) * Span.millis 250 / Span.millis 100 - 1 * Span.millis 250 / Span.millis 100 =
      3 := by decide
  exact ⟨hFinish.trans hEnd, hSamples.trans hCount⟩

end LoadFeedback
