import LoadFeedback.Proofs.Rounding
import LoadFeedback.Proofs.Sender.Event

/-! The hold-down of a coded window is written down twice: as a phase, and as a timer that ends this
phase. Both agree after every run, so a due timer is never refused, and a refused delivery has
nothing to disarm. -/
namespace LoadFeedback

/-- Whether the timers were disarmed since the window last started. -/
def WindowEvent.closes (closed : Bool) : WindowEvent → Bool
  | .close => true
  | .reset => false
  | _ => closed

/-- Whether a run has disarmed the timers since its last reset. -/
def WindowEvent.closedAfter (events : List WindowEvent) : Bool :=
  events.foldl closes false

namespace Coded

variable {α : Type}

/-- An armed hold-down timer belongs to the present phase, and the timers of links are never armed.
Until the timers are disarmed together, a phase also has its timer. -/
structure Aligned (closed : Bool) (c : Coded α) : Prop where
  first_of_armed : c.timers.isPending .holdDownFirst = true → c.phase = .first
  second_of_armed : c.timers.isPending .holdDownSecond = true → c.phase = .second
  sampling_idle : c.timers.isPending .queueSampling = false
  measurement_idle : c.timers.isPending .loadMeasurement = false
  armed_of_first : closed = false → c.phase = .first → c.timers.isPending .holdDownFirst = true
  armed_of_second : closed = false → c.phase = .second → c.timers.isPending .holdDownSecond = true

namespace Aligned

variable {closed : Bool} {c d : Coded α}

/-- The pacing timer has no part in the hold-down. -/
theorem congr (h : c.Aligned closed) (hPhase : d.phase = c.phase)
    (hTimers : ∀ timer, timer ≠ .pacing → d.timers.isPending timer = c.timers.isPending timer) :
    d.Aligned closed where
  first_of_armed := by
    rw [hTimers _ (by decide), hPhase]
    exact h.first_of_armed
  second_of_armed := by
    rw [hTimers _ (by decide), hPhase]
    exact h.second_of_armed
  sampling_idle := by
    rw [hTimers _ (by decide)]
    exact h.sampling_idle
  measurement_idle := by
    rw [hTimers _ (by decide)]
    exact h.measurement_idle
  armed_of_first := by
    rw [hTimers _ (by decide), hPhase]
    exact h.armed_of_first
  armed_of_second := by
    rw [hTimers _ (by decide), hPhase]
    exact h.armed_of_second

/-- Without an armed timer only the phase `none` is aligned, unless the timers were disarmed. -/
theorem of_idle (hTimers : c.timers = .empty) (h : closed = false → c.phase = .none) :
    c.Aligned closed where
  first_of_armed := by simp [hTimers]
  second_of_armed := by simp [hTimers]
  sampling_idle := by simp [hTimers]
  measurement_idle := by simp [hTimers]
  armed_of_first := fun hClosed hFirst => by simp [h hClosed] at hFirst
  armed_of_second := fun hClosed hSecond => by simp [h hClosed] at hSecond

theorem first_idle (h : c.Aligned closed) (hPhase : c.phase ≠ .first) :
    c.timers.isPending .holdDownFirst = false :=
  Bool.eq_false_iff.mpr fun hArmed => hPhase (h.first_of_armed hArmed)

theorem second_idle (h : c.Aligned closed) (hPhase : c.phase ≠ .second) :
    c.timers.isPending .holdDownSecond = false :=
  Bool.eq_false_iff.mpr fun hArmed => hPhase (h.second_of_armed hArmed)

/-- A timer whose delivery the phase refuses is not armed. -/
theorem idle_of_refused (h : c.Aligned closed) {timer : Timer}
    (notFirst : ¬(timer = .holdDownFirst ∧ c.phase = .first))
    (notSecond : ¬(timer = .holdDownSecond ∧ c.phase = .second)) (notPacing : timer ≠ .pacing) :
    c.timers.isPending timer = false := by
  cases timer with
  | queueSampling => exact h.sampling_idle
  | loadMeasurement => exact h.measurement_idle
  | holdDownFirst => exact h.first_idle fun hPhase => notFirst ⟨rfl, hPhase⟩
  | holdDownSecond => exact h.second_idle fun hPhase => notSecond ⟨rfl, hPhase⟩
  | pacing => exact absurd rfl notPacing

variable [Scalar α]

/-- The phase moves on together with its timer, whether the timer was due or delivered early. -/
theorem delivers {timer : Timer} {now : Instant} {result : Attempt (Coded α) Bool}
    (h : c.Aligned closed) (step : Delivers c now timer result) : result.2.Aligned closed := by
  cases step with
  | thaw hPhase =>
      have hSecond := h.second_idle (by rw [hPhase]; decide)
      constructor <;> simp [h.sampling_idle, h.measurement_idle]
  | lapse hPhase =>
      have hFirst := h.first_idle (by rw [hPhase]; decide)
      constructor <;> simp [hFirst, h.sampling_idle, h.measurement_idle]
  | pacing => exact h.congr rfl fun timer hTimer => by simp [hTimer]
  | refused notFirst notSecond notPacing =>
      rw [Timetable.stop_eq_self (h.idle_of_refused notFirst notSecond notPacing)]
      exact h

theorem onTimer (h : c.Aligned closed) (timer : Timer) (now : Instant) :
    (c.onTimer timer now).2.Aligned closed :=
  h.delivers (delivers_onTimer c timer now)

/-- A refused delivery leaves the window as it was, although the timer is disarmed first. -/
theorem refused_unchanged (h : c.Aligned closed) {timer : Timer} {now : Instant} {fault : Fault}
    (hRefused : c.onTimer timer now = (.error fault, d)) :
    fault = .expiredInPhase timer c.phase ∧ d = c := by
  have hStep := delivers_onTimer c timer now
  rw [hRefused] at hStep
  cases hStep with
  | refused notFirst notSecond notPacing =>
      rw [Timetable.stop_eq_self (h.idle_of_refused notFirst notSecond notPacing)]
      exact ⟨rfl, rfl⟩

/-- A due timer is accepted, and lets a packet leave exactly if it is the one for pacing. Of the other
timers the same ones are due afterwards as before: the one that a delivery arms is set for a positive
span. -/
theorem onTimer_of_due (h : c.Aligned closed) {timer : Timer} {now : Instant}
    (due : c.timers.isExpired timer now = true) :
    (c.onTimer timer now).1 = .ok (decide (timer = .pacing)) ∧
      ∀ other, (c.onTimer timer now).2.timers.isExpired other now = true ↔
        other ≠ timer ∧ c.timers.isExpired other now = true := by
  have hArmed := Timetable.isPending_of_isExpired due
  have hStep := delivers_onTimer c timer now
  generalize c.onTimer timer now = result at hStep ⊢
  cases hStep with
  | thaw hPhase =>
      have hSpan : 0 < c.cautionSpan := Span.roundTo_up_pos α _ _
      refine ⟨rfl, fun other => ?_⟩
      rw [Timetable.isExpired_setAfter _ _ _ _ hSpan, Timetable.isExpired_stop]
      refine ⟨And.right, fun hOther => ⟨?_, hOther⟩⟩
      -- The timer that is armed now was not armed before, so no deadline is lost.
      rintro rfl
      have hSecond := h.second_of_armed (Timetable.isPending_of_isExpired hOther.2)
      cases hPhase.symm.trans hSecond
  | lapse hPhase => exact ⟨rfl, fun other => Timetable.isExpired_stop _ _ _ _⟩
  | pacing => exact ⟨rfl, fun other => Timetable.isExpired_stop _ _ _ _⟩
  | refused notFirst notSecond notPacing =>
      cases hArmed.symm.trans (h.idle_of_refused notFirst notSecond notPacing)

/-- Timers are delivered without a refusal, and none of those delivered is due afterwards. The
order in which they are listed does not matter. -/
theorem deliver (h : c.Aligned closed) (now : Instant) (timers : List Timer) (release : Bool) :
    ∃ released d, c.deliver now timers release = (.ok released, d) ∧
      ∀ other, d.timers.isExpired other now = true →
        other ∉ timers ∧ c.timers.isExpired other now = true := by
  induction timers generalizing c release with
  | nil => exact ⟨release, c, rfl, fun other hOther => ⟨List.not_mem_nil, hOther⟩⟩
  | cons timer rest ih =>
      unfold Coded.deliver
      split
      · next hDue =>
          obtain ⟨hAccepted, hOthers⟩ := h.onTimer_of_due hDue
          obtain ⟨released, d, hRest, hDelivered⟩ :=
            ih (h.onTimer timer now) (release || decide (timer = .pacing))
          refine ⟨released, d, ?_, fun other hOther => ?_⟩
          · rw [← hRest, ← Prod.eta (c.onTimer timer now), hAccepted]
          · obtain ⟨hRest, hBefore⟩ := hDelivered other hOther
            obtain ⟨hNe, hDue⟩ := (hOthers other).mp hBefore
            exact ⟨List.not_mem_cons_of_ne_of_not_mem hNe hRest, hDue⟩
      · next hNotDue =>
          obtain ⟨released, d, hRest, hDelivered⟩ := ih h release
          refine ⟨released, d, hRest, fun other hOther => ?_⟩
          obtain ⟨hRest, hDue⟩ := hDelivered other hOther
          have hNe : other ≠ timer := fun hEq => hNotDue (hEq ▸ hDue)
          exact ⟨List.not_mem_cons_of_ne_of_not_mem hNe hRest, hDue⟩

/-- Whatever the instant, the delivery of all due timers succeeds and leaves only deadlines ahead. -/
theorem onTimeout (h : c.Aligned closed) (now : Instant) :
    ∃ released d, c.onTimeout now = (.ok released, d) ∧
      ∀ deadline, d.timers.next? = some deadline → now < deadline := by
  obtain ⟨released, d, hResult, hDelivered⟩ :=
    h.deliver now [.holdDownFirst, .holdDownSecond, .pacing] false
  refine ⟨released, d, hResult, fun deadline => Timetable.lt_of_next? fun timer =>
    Bool.eq_false_iff.mpr fun hDue => ?_⟩
  obtain ⟨hOther, hBefore⟩ := hDelivered timer hDue
  have hArmed := Timetable.isPending_of_isExpired hBefore
  -- Only the timers of links are not in the list, and these are never armed.
  cases timer with
  | queueSampling => simp [h.sampling_idle] at hArmed
  | loadMeasurement => simp [h.measurement_idle] at hArmed
  | holdDownFirst => simp at hOther
  | holdDownSecond => simp at hOther
  | pacing => simp at hOther

theorem onTimeout_keeps (h : c.Aligned closed) (now : Instant) :
    (c.onTimeout now).2.Aligned closed :=
  deliver_keeps (fun _ timer _ hStep => hStep.onTimer timer now) _ c false h

end Aligned

theorem aligned_start [Scalar α] (config : SenderConfig α) (tables : WindowTables α) :
    (start config tables).Aligned false :=
  .of_idle rfl fun _ => rfl

variable [PowerScalar α]

/-- A decrease enters the freeze and arms its timer in one step; other actions touch neither. -/
theorem Aligned.respond {closed : Bool} {c : Coded α} (h : c.Aligned closed) (code : LoadCode)
    (now : Instant) : (c.respond code now).Aligned closed := by
  by_cases hAction : c.choose code = .decrease
  · have hPhase := (choose_eq_decrease.mp hAction).2
    have hSecond := h.second_idle (by rw [hPhase]; decide)
    constructor <;>
      simp [phase_respond, timers_respond, hAction, hSecond, h.sampling_idle, h.measurement_idle]
  · refine h.congr ?_ fun timer _ => ?_
    · rw [phase_respond, if_neg hAction]
    · rw [timers_respond, if_neg hAction]

/-- One event keeps phase and timers aligned. -/
theorem Aligned.after {closed : Bool} {c : Coded α} (h : c.Aligned closed) (event : WindowEvent) :
    (c.after event).Aligned (event.closes closed) := by
  cases event with
  | ack p now => exact after_ack_keeps p now h fun code => h.respond code now
  | measured estimate => exact h.congr rfl fun _ _ => rfl
  | sent paced => exact h.congr rfl fun _ _ => by cases paced <;> rfl
  | timer timer now => exact h.onTimer timer now
  | timeout now => exact h.onTimeout_keeps now
  | pace now =>
      obtain ⟨timers, hPace, hOther⟩ := c.toWindowState.pace_cases now
      refine h.congr rfl fun timer hTimer => ?_
      simp only [Coded.after, hPace, Timetable.isPending, hOther timer hTimer]
  | reset => exact .of_idle rfl fun _ => rfl
  | close => exact .of_idle rfl fun hOpen => by cases hOpen

theorem Aligned.run {closed : Bool} {c : Coded α} (h : c.Aligned closed)
    (events : List WindowEvent) : (c.run events).Aligned (events.foldl WindowEvent.closes closed) := by
  induction events generalizing c closed with
  | nil => exact h
  | cons event rest ih => exact ih (h.after event)

/-- After any run of a new window, in any order and at any instants: an armed hold-down timer
belongs to the present phase, the timers of links are not armed, and each phase has its timer unless
the timers were disarmed since the last reset. Hence the delivery of all due timers never fails and
leaves only deadlines ahead, and a refused delivery changes nothing. -/
theorem hold_down_matches_timers (config : SenderConfig α) (tables : WindowTables α)
    (events : List WindowEvent) :
    let c := (start config tables).run events
    (c.timers.isPending .holdDownFirst = true → c.phase = .first) ∧
    (c.timers.isPending .holdDownSecond = true → c.phase = .second) ∧
    c.timers.isPending .queueSampling = false ∧
    c.timers.isPending .loadMeasurement = false ∧
    (WindowEvent.closedAfter events = false →
      (c.phase = .first ↔ c.timers.isPending .holdDownFirst = true) ∧
      (c.phase = .second ↔ c.timers.isPending .holdDownSecond = true)) ∧
    (∀ now, ∃ released d, c.onTimeout now = (.ok released, d) ∧
      ∀ deadline, d.timers.next? = some deadline → now < deadline) ∧
    ∀ timer now fault d, c.onTimer timer now = (.error fault, d) →
      fault = .expiredInPhase timer c.phase ∧ d = c := by
  intro c
  have h := (aligned_start config tables).run events
  refine ⟨h.first_of_armed, h.second_of_armed, h.sampling_idle, h.measurement_idle, ?_,
    h.onTimeout, fun _ _ _ _ => h.refused_unchanged⟩
  intro hOpen
  exact ⟨⟨h.armed_of_first hOpen, h.first_of_armed⟩, ⟨h.armed_of_second hOpen, h.second_of_armed⟩⟩

end Coded
end LoadFeedback
