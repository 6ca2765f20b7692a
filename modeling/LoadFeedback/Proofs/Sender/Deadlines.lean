import LoadFeedback.Proofs.Sender.Controller
import LoadFeedback.Proofs.Sender.HoldDown
import LoadFeedback.Proofs.Sender.Pacer

/-! The timers of a window under either law. Every call arms timers for later instants only, and an
armed timer is one that the window expects, so it is never refused when its instant comes. -/
namespace LoadFeedback

variable {α : Type}

theorem WindowState.armsAhead_pace [Scalar α] (s : WindowState α) (now : Instant) :
    s.timers.ArmsAhead now (s.pace now).2.timers := by
  unfold pace
  split
  · exact .refl now s.timers
  · next interval hPaced =>
      exact (Timetable.ArmsAhead.refl now s.timers).setAfter .pacing (Pacer.interval?_pos hPaced)

theorem Raw.timers_onTimer (r : Raw α) (timer : Timer) :
    (r.onTimer timer).2.timers = r.timers.stop timer := by
  cases timer <;> rfl

namespace Controller

/-- An armed timer is one that the window expects: a timer of the present phase, or for pacing. Under
the coded law each phase also has its timer, as long as nobody disarms them all. -/
def Aligned : Controller α → Prop
  | coded c => c.Aligned false
  | raw r => ∀ timer, timer ≠ .pacing → r.timers.isPending timer = false

/-- Whether a timer may be delivered to the window now. -/
def Expects (c : Controller α) : Timer → Prop
  | .holdDownFirst => c.phase = .first
  | .holdDownSecond => c.phase = .second
  | .pacing => True
  | .queueSampling | .loadMeasurement => False

/-- What calls at an instant leave as it was, and that they arm no timer for this instant. -/
structure Continues (now : Instant) (c d : Controller α) : Prop where
  isCoded_eq : d.isCoded = c.isCoded
  aligned : c.Aligned → d.Aligned
  armsAhead : c.state.timers.ArmsAhead now d.state.timers

namespace Continues

variable {now : Instant} {c d e : Controller α}

theorem refl (now : Instant) (c : Controller α) : c.Continues now c := ⟨rfl, id, .refl now _⟩

theorem trans (h : c.Continues now d) (k : d.Continues now e) : c.Continues now e :=
  ⟨k.isCoded_eq.trans h.isCoded_eq, k.aligned ∘ h.aligned, h.armsAhead.trans k.armsAhead⟩

/-- Only the pacing timer was touched. -/
theorem withState {s : WindowState α} (c : Controller α)
    (hOther : ∀ timer, timer ≠ .pacing →
      s.timers.deadline? timer = c.state.timers.deadline? timer)
    (hAhead : c.state.timers.ArmsAhead now s.timers) : c.Continues now (c.withState s) := by
  have hPending : ∀ timer, timer ≠ .pacing →
      s.timers.isPending timer = c.state.timers.isPending timer :=
    fun timer hTimer => congrArg Option.isSome (hOther timer hTimer)
  cases c with
  | coded c => exact ⟨rfl, fun h => h.congr rfl hPending, hAhead⟩
  | raw r =>
      exact ⟨rfl, fun h timer hTimer => (hPending timer hTimer).trans (h timer hTimer), hAhead⟩

end Continues

theorem Aligned.expects {c : Controller α} (h : c.Aligned) {timer : Timer} {deadline : Instant}
    (armed : c.deadline? timer = some deadline) : c.Expects timer := by
  have hArmed : c.state.timers.isPending timer = true := Timetable.isPending_iff.mpr ⟨_, armed⟩
  cases c with
  | coded c =>
      cases timer with
      | queueSampling => exact absurd (hArmed.symm.trans h.sampling_idle) nofun
      | loadMeasurement => exact absurd (hArmed.symm.trans h.measurement_idle) nofun
      | holdDownFirst => exact h.first_of_armed hArmed
      | holdDownSecond => exact h.second_of_armed hArmed
      | pacing => trivial
  | raw r =>
      cases timer with
      | pacing => trivial
      | queueSampling | loadMeasurement | holdDownFirst | holdDownSecond =>
          exact absurd (hArmed.symm.trans (h _ nofun)) nofun

theorem continues_sent (c : Controller α) (paced : Bool) (now : Instant) :
    c.Continues now (c.sent paced) := by
  cases paced <;> exact .withState c (fun _ _ => rfl) (.refl now _)

theorem deadline?_sent (c : Controller α) (paced : Bool) (timer : Timer) :
    (c.sent paced).deadline? timer = c.deadline? timer := by
  rw [deadline?, sent, state_withState]
  cases paced <;> rfl

section

variable [Scalar α]

theorem continues_measured (c : Controller α) (estimate : RoundTrip) (now : Instant) :
    c.Continues now (c.measured estimate) :=
  .withState c (fun _ _ => rfl) (.refl now _)

theorem continues_pace (c : Controller α) (now : Instant) : c.Continues now (c.pace now).2 := by
  obtain ⟨timers, hPace, hOther⟩ := c.state.pace_cases now
  refine .withState c (fun timer hTimer => ?_) (c.state.armsAhead_pace now)
  show (c.state.pace now).2.timers.deadline? timer = c.state.timers.deadline? timer
  rw [hPace]
  exact hOther timer hTimer

theorem continues_onTimer (c : Controller α) (timer : Timer) (now : Instant) :
    c.Continues now (c.onTimer timer now).2 := by
  cases c with
  | coded c =>
      refine ⟨rfl, fun h => h.onTimer timer now, ?_⟩
      have hStep := Coded.delivers_onTimer c timer now
      show c.timers.ArmsAhead now (c.onTimer timer now).2.timers
      generalize c.onTimer timer now = result at hStep ⊢
      have hSame := Timetable.ArmsAhead.refl now c.timers
      cases hStep with
      | thaw hPhase => exact (hSame.stop _).setAfter _ (Span.roundTo_up_pos α _ _)
      | lapse hPhase => exact hSame.stop _
      | pacing => exact hSame.stop _
      | refused => exact hSame.stop _
  | raw r =>
      refine ⟨rfl, fun h other hOther => ?_, ?_⟩
      · show (r.onTimer timer).2.timers.isPending other = false
        rw [r.timers_onTimer, Timetable.isPending_stop, h other hOther, Bool.and_false]
      · show r.timers.ArmsAhead now (r.onTimer timer).2.timers
        rw [r.timers_onTimer]
        exact (Timetable.ArmsAhead.refl now r.timers).stop timer

/-- A timer that was delivered is disarmed, also where its delivery is refused. -/
theorem deadline?_onTimer (c : Controller α) (timer : Timer) (now : Instant) :
    (c.onTimer timer now).2.deadline? timer = none := by
  cases c with
  | coded c =>
      have hStep := Coded.delivers_onTimer c timer now
      show (c.onTimer timer now).2.timers.deadline? timer = none
      generalize c.onTimer timer now = result at hStep ⊢
      cases hStep <;> simp
  | raw r =>
      show (r.onTimer timer).2.timers.deadline? timer = none
      rw [r.timers_onTimer, Timetable.deadline?_stop, if_pos rfl]

theorem aligned_start (config : SenderConfig α) (tables : WindowTables α) :
    (start config tables).Aligned := by
  unfold start
  split
  · exact Coded.aligned_start config tables
  · exact fun timer _ => Timetable.isPending_empty timer

theorem deadline?_start (config : SenderConfig α) (tables : WindowTables α) (timer : Timer) :
    (start config tables).deadline? timer = none := by
  unfold start
  split <;> exact Timetable.deadline?_empty timer

/-- A timer that is expected is taken. -/
theorem onTimer_of_expects {c : Controller α} {timer : Timer} (h : c.Expects timer) (now : Instant) :
    ∃ released, (c.onTimer timer now).1 = .ok released := by
  cases c with
  | coded c =>
      have hStep := Coded.delivers_onTimer c timer now
      show ∃ released, (c.onTimer timer now).1 = .ok released
      generalize c.onTimer timer now = result at hStep ⊢
      cases hStep with
      | thaw | lapse | pacing => exact ⟨_, rfl⟩
      | refused notFirst notSecond notPacing =>
          cases timer with
          | holdDownFirst => exact absurd ⟨rfl, h⟩ notFirst
          | holdDownSecond => exact absurd ⟨rfl, h⟩ notSecond
          | pacing => exact absurd rfl notPacing
          | queueSampling | loadMeasurement => exact h.elim
  | raw r =>
      cases timer with
      | pacing => exact ⟨true, rfl⟩
      | queueSampling | loadMeasurement => exact h.elim
      | holdDownFirst | holdDownSecond => cases h

end

theorem continues_onAck [PowerScalar α] (c : Controller α) (p : Packet) (now : Instant) :
    c.Continues now (c.onAck p now).2 := by
  cases c with
  | coded c =>
      rcases c.onAck_cases p now with ⟨fault, _, hResult⟩ | ⟨code, _, hResult⟩
      · simp only [onAck, hResult]
        exact .refl now (coded c)
      · simp only [onAck, hResult]
        refine ⟨rfl, fun h => h.respond code now, ?_⟩
        show c.timers.ArmsAhead now (c.respond code now).timers
        rw [Coded.timers_respond]
        have hSame := Timetable.ArmsAhead.refl now c.timers
        split
        · exact hSame.setAfter _ (Span.roundTo_up_pos α _ _)
        · exact hSame
  | raw r =>
      have hTimers : (r.onAck p).2.timers = r.timers := by
        unfold Raw.onAck
        split <;> rfl
      refine ⟨rfl, fun h timer hTimer => ?_, ?_⟩
      · show (r.onAck p).2.timers.isPending timer = false
        rw [hTimers]
        exact h timer hTimer
      · show r.timers.ArmsAhead now (r.onAck p).2.timers
        rw [hTimers]
        exact .refl now r.timers

end Controller
end LoadFeedback
