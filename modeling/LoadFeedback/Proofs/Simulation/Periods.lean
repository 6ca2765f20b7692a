import LoadFeedback.Proofs.Link.Departures
import LoadFeedback.Proofs.Simulation.Punctuality

/-! The clockwork of a simulation. Since every timer is delivered at its deadline, the link measures
and samples in exact periods, however many flows there are and whatever they do. -/
namespace LoadFeedback.Simulation

variable {α : Type}

theorem deliveries_append (key : TimerKey) (moves : List Move) (move : Move) :
    deliveries key (moves ++ [move]) = deliveries key moves ++ deliveries key [move] :=
  List.filterMap_append

theorem deliveries_timer (key other : TimerKey) (now : Instant) :
    deliveries key [.timer other now] = if other = key then [now] else [] := by
  by_cases h : other = key <;> simp [deliveries, h]

/-- A timer ran out at the multiples of its period so far, and is armed for the next one. -/
structure Ticks (period : Span) (times : List Instant) (deadline : Option Instant) : Prop where
  past : ∀ k now, times[k]? = some now → now = (k + 1) * period
  armed : deadline = some ((times.length + 1) * period)

theorem Ticks.tick {period : Span} {times : List Instant} {now : Instant}
    (h : Ticks period times (some now)) : Ticks period (times ++ [now]) (some (now + period)) := by
  have hNow : now = (times.length + 1) * period := Option.some.inj h.armed
  constructor
  case past =>
    intro k past hPast
    rcases getElem?_concat_cases hPast with hOld | ⟨rfl, rfl⟩
    · exact h.past k past hOld
    · exact hNow
  case armed =>
    rw [List.length_append, List.length_singleton, Nat.succ_mul, ← hNow]

/-- How long a timer of the link runs each time. -/
def period [Scalar α] (o : Options α) : Timer → Span
  | .queueSampling => (linkConfig o).samplingInterval
  | _ => (linkConfig o).measurementInterval

/-- Both timers of the link tick, and each tick of the one for measurements ends an interval. -/
structure Periodic [Scalar α] (o : Options α) (moves : List Move) (m : Meter α) : Prop where
  ticks : ∀ timer ∈ linkTimers,
    Ticks (period o timer) (deliveries ⟨linkOwner, timer⟩ moves) (m.deadline? timer)
  intervalStart : m.intervalStart =
    (deliveries ⟨linkOwner, .loadMeasurement⟩ moves).length * period o .loadMeasurement
  intervals : m.reading.intervals = (deliveries ⟨linkOwner, .loadMeasurement⟩ moves).length

namespace Periodic

variable [Scalar α] {o : Options α} {moves : List Move} {m next : Meter α}

theorem start (o : Options α) (capacity : α) : Periodic o [] (.start (linkConfig o) capacity 0) where
  ticks timer hTimer := by
    refine ⟨by simp [deliveries], ?_⟩
    simp only [linkTimers, List.mem_cons, List.not_mem_nil, or_false] at hTimer
    rcases hTimer with rfl | rfl
    · exact congrArg some (by simp [deliveries, period])
    · exact congrArg some (by simp [deliveries, period])
  intervalStart := by simp [deliveries, Meter.start, Meter.reset]
  intervals := rfl

/-- The other moves leave the link's clock alone. -/
theorem other (h : Periodic o moves m) {move : Move}
    (hMove : ∀ timer, deliveries ⟨linkOwner, timer⟩ [move] = [])
    (hTimers : next.timers = m.timers) (hStart : next.intervalStart = m.intervalStart)
    (hIntervals : next.reading.intervals = m.reading.intervals) :
    Periodic o (moves ++ [move]) next := by
  have hSame (timer : Timer) : deliveries ⟨linkOwner, timer⟩ (moves ++ [move]) =
      deliveries ⟨linkOwner, timer⟩ moves := by
    rw [deliveries_append, hMove, List.append_nil]
  constructor
  case ticks => simpa only [hSame, Meter.deadline?, hTimers] using h.ticks
  case intervalStart => rw [hSame, hStart, h.intervalStart]
  case intervals => rw [hSame, hIntervals, h.intervals]

/-- A timer of the link that ran out ticks, and the other one goes on. -/
theorem ticks_append (h : Periodic o moves m) {timer : Timer} {now : Instant}
    (due : m.deadline? timer = some now) (next : Meter α)
    (armed : next.timers = m.timers.setAfter timer now (period o timer)) :
    ∀ other ∈ linkTimers, Ticks (period o other)
      (deliveries ⟨linkOwner, other⟩ (moves ++ [.timer ⟨linkOwner, timer⟩ now]))
      (next.deadline? other) := by
  intro other hOther
  have hTicks := h.ticks other hOther
  rw [deliveries_append, deliveries_timer, Meter.deadline?, armed, Timetable.deadline?_setAfter]
  by_cases hTimer : other = timer
  · subst hTimer
    rw [due] at hTicks
    simpa using hTicks.tick
  · have hKey : (⟨linkOwner, timer⟩ : TimerKey) ≠ ⟨linkOwner, other⟩ := fun hEq =>
      hTimer (congrArg TimerKey.timer hEq).symm
    rw [if_neg hKey, if_neg hTimer, List.append_nil]
    exact hTicks

theorem onTimer (h : Periodic o moves m) (fit : LinkFit o m) {timer : Timer} {now : Instant}
    {queueBytes : Nat} (due : m.deadline? timer = some now)
    (taken : m.onTimer timer now queueBytes = (.ok (), next)) :
    Periodic o (moves ++ [.timer ⟨linkOwner, timer⟩ now]) next := by
  rcases Meter.onTimer_eq_ok taken with ⟨rfl, rfl⟩ | ⟨rfl, _, rfl⟩
  · have hTicks := h.ticks_append due
      { m.sampleQueue queueBytes with
        timers := m.timers.setAfter .queueSampling now m.samplingInterval }
      (by rw [fit.sampling_eq]; rfl)
    have hSame : deliveries ⟨linkOwner, .loadMeasurement⟩
        (moves ++ [.timer ⟨linkOwner, .queueSampling⟩ now]) =
        deliveries ⟨linkOwner, .loadMeasurement⟩ moves := by
      rw [deliveries_append, deliveries_timer, if_neg (by decide), List.append_nil]
    exact ⟨hTicks, by rw [hSame]; exact h.intervalStart, by rw [hSame]; exact h.intervals⟩
  · have hTicks := h.ticks_append due (m.measured now)
      (by rw [Meter.measured, fit.measurement_eq]; rfl)
    have hMore : (deliveries ⟨linkOwner, .loadMeasurement⟩
        (moves ++ [.timer ⟨linkOwner, .loadMeasurement⟩ now])).length =
        (deliveries ⟨linkOwner, .loadMeasurement⟩ moves).length + 1 := by
      rw [deliveries_append, deliveries_timer, if_pos rfl, List.length_append, List.length_singleton]
    refine ⟨hTicks, ?_, ?_⟩
    · have hNow := (h.ticks .loadMeasurement (by decide)).armed
      rw [due] at hNow
      rw [hMore]
      exact Option.some.inj hNow
    · rw [hMore]
      exact congrArg (· + 1) h.intervals

/-- An interval that is measured at its deadline has its full length. -/
theorem elapsed_eq (h : Periodic o moves m) {now : Instant}
    (due : m.deadline? .loadMeasurement = some now) :
    m.elapsed now = period o .loadMeasurement := by
  have hNow := (h.ticks .loadMeasurement (by decide)).armed
  rw [due] at hNow
  rw [Meter.elapsed, h.intervalStart, Option.some.inj hNow, Nat.succ_mul, Nat.add_sub_cancel_left]

end Periodic

/-- Everything that holds of the time in a simulation. -/
structure Punctual [Scalar α] (o : Options α) (moves : List Move) (s : Simulation α) : Prop where
  options_eq : s.options = o
  fit : s.Fit
  mirror : s.Mirrored
  timely : Timely moves s
  periodic : Periodic o moves s.link.meter

/-- A timer that comes out is due now, and armed in its component. -/
theorem Punctual.deadline_eq [Scalar α] {o : Options α} {moves : List Move} {s : Simulation α}
    (h : Punctual o moves s) {a : Alarm} (may : s.schedule.MayExpire s.now a) :
    s.componentDeadline? a.key = some s.now := by
  have hArmed := (h.mirror.mem_iff a).mp may.armed
  have hAhead := (h.timely.timers a.key a.deadline hArmed).1
  rw [hArmed, Nat.le_antisymm may.due hAhead]

theorem punctual_of_build [Scalar α] {o : Options α} {tables : WindowTables α} {s : Simulation α}
    (built : build o tables = .ok s) : Punctual o [] s := by
  have hFit := fit_of_build built
  have hMirror := mirrored_of_build built
  have hTimely := timely_of_build built
  obtain ⟨capacity, _, _, _, _, rfl⟩ := build_eq built
  exact ⟨rfl, hFit, hMirror, hTimely, .start o capacity⟩

section

variable [PowerScalar α] {o : Options α} {s t : Simulation α} {moves : List Move}

theorem Moves.options_eq {move : Move} (step : Moves s move t) : t.options = s.options := by
  cases step with
  | timer turn may delivers => exact delivers.serves.options_eq
  | event turn due handles => exact handles.serves.options_eq
  | instant | settled | quiet => rfl

/-- The instants of a simulation are not beyond its end. -/
theorem Next.inTime {move : Move} (last : Next s move (.running t)) (h : s.now ≤ s.endsAt) :
    t.now ≤ t.endsAt := by
  have hOptions := (moves_of_next last).options_eq
  rw [endsAt, hOptions, ← endsAt]
  generalize hResult : Progress.running t = result at last
  cases last with
  | instant turn due inTime =>
      cases hResult
      exact inTime
  | timer turn may =>
      rw [(delivers_onTimer (proceed_eq_running hResult.symm)).serves.now_eq]
      exact h
  | event turn due =>
      rw [(handles_onEvent (proceed_eq_running hResult.symm)).serves.now_eq]
      exact h
  | settled | quiet =>
      cases hResult
      exact h

theorem now_le_of_course {tables : WindowTables α} (built : build o tables = .ok s)
    (course : Course s moves t) : t.now ≤ t.endsAt := by
  induction course with
  | start =>
      obtain ⟨_, _, _, _, _, rfl⟩ := build_eq built
      exact Nat.zero_le _
  | next prior last ih => exact last.inTime ih

theorem Moves.periodic {move : Move} (step : Moves s move t) (h : Punctual o moves s) :
    Periodic o (moves ++ [move]) t.link.meter := by
  cases step with
  | @timer a t turn may delivers =>
      rcases delivers.meter with ⟨hOwner, hMeter⟩ | ⟨hOwner, hTaken⟩
      · refine h.periodic.other (fun timer => ?_) (by rw [hMeter]) (by rw [hMeter]) (by rw [hMeter])
        rw [deliveries_timer, if_neg fun hKey => hOwner (congrArg TimerKey.owner hKey)]
      · have hKey : a.key = ⟨linkOwner, a.key.timer⟩ := by
          cases hEq : a.key
          simp_all
        have hDue := h.deadline_eq may
        rw [hKey, componentDeadline?_link] at hDue
        rw [hKey]
        exact h.periodic.onTimer (h.options_eq ▸ h.fit.link) hDue hTaken
  | event turn due handles =>
      rcases handles.meter with hMeter | ⟨size, hMeter⟩
      · exact h.periodic.other (fun _ => rfl) (by rw [hMeter]) (by rw [hMeter]) (by rw [hMeter])
      · exact h.periodic.other (fun _ => rfl) (by rw [hMeter]; rfl) (by rw [hMeter]; rfl)
          (by rw [hMeter]; rfl)
  | instant | settled | quiet => exact h.periodic.other (fun _ => rfl) rfl rfl rfl

theorem punctual_of_course {tables : WindowTables α} (built : build o tables = .ok s)
    (course : Course s moves t) : Punctual o moves t :=
  course.keeps (punctual_of_build built) fun _ _ _ _ h step =>
    ⟨step.options_eq.trans h.options_eq, step.fit h.fit, step.mirrored h.mirror h.fit,
      step.timely h.timely h.mirror h.fit, step.periodic h⟩

end

end LoadFeedback.Simulation
