import LoadFeedback.Proofs.Timetable
import LoadFeedback.Sender.Coded

/-! What can happen to a window, and what one such event does to the hold-down under the law for
coded feedback. Later modules reason about runs through these lemmas and open no operation again. -/
namespace LoadFeedback

/-- One call on a sender's window. A refused call is an event as well. -/
inductive WindowEvent where
  /-- An acknowledgment, or any other packet in its place. -/
  | ack (packet : Packet) (now : Instant)
  /-- A new estimate of the round trip. -/
  | measured (estimate : RoundTrip)
  /-- A packet left. -/
  | sent (paced : Bool)
  /-- One timer is delivered, due or not. -/
  | timer (timer : Timer) (now : Instant)
  /-- Every due timer is delivered. -/
  | timeout (now : Instant)
  /-- The pacing timer is armed for the next packet. -/
  | pace (now : Instant)
  /-- The window starts anew. -/
  | reset
  /-- Every timer is disarmed. -/
  | close

namespace WindowState

variable {α : Type} [Scalar α]

/-- Arming the pacing timer changes the timetable alone, and in it no other timer. -/
theorem pace_cases (s : WindowState α) (now : Instant) :
    ∃ timers : Timetable, (s.pace now).2 = { s with timers := timers } ∧
      ∀ timer, timer ≠ .pacing → timers.deadline? timer = s.timers.deadline? timer := by
  unfold pace
  split
  · exact ⟨s.timers, rfl, fun _ _ => rfl⟩
  · next interval _ =>
      exact ⟨s.timers.setAfter .pacing now interval, rfl, fun timer h => by simp [h]⟩

end WindowState

namespace Coded

variable {α : Type}

theorem choose_eq_decrease {c : Coded α} {code : LoadCode} :
    c.choose code = .decrease ↔ code = .over ∧ c.phase = .none := by
  unfold choose
  cases code <;> cases c.phase <;> simp

section

variable [Scalar α]

/-- Everything that the delivery of a timer can do. The timer is disarmed in each case, also where
its delivery is refused. -/
inductive Delivers (c : Coded α) (now : Instant) : Timer → Attempt (Coded α) Bool → Prop where
  | thaw (h : c.phase = .first) : Delivers c now .holdDownFirst (.ok false,
      { c with
        phase := .second
        tally := { c.tally with holdDownTimeouts := c.tally.holdDownTimeouts + 1 }
        timers := (c.timers.stop .holdDownFirst).setAfter .holdDownSecond now c.cautionSpan })
  | lapse (h : c.phase = .second) : Delivers c now .holdDownSecond (.ok false,
      { c with
        phase := .none
        tally := { c.tally with holdDownTimeouts := c.tally.holdDownTimeouts + 1 }
        timers := c.timers.stop .holdDownSecond })
  | pacing : Delivers c now .pacing (.ok true, { c with timers := c.timers.stop .pacing })
  | refused {timer : Timer} (notFirst : ¬(timer = .holdDownFirst ∧ c.phase = .first))
      (notSecond : ¬(timer = .holdDownSecond ∧ c.phase = .second)) (notPacing : timer ≠ .pacing) :
      Delivers c now timer (.error (.expiredInPhase timer c.phase),
        { c with timers := c.timers.stop timer })

theorem delivers_onTimer (c : Coded α) (timer : Timer) (now : Instant) :
    Delivers c now timer (c.onTimer timer now) := by
  unfold onTimer
  dsimp only
  split
  · next hPhase => exact .thaw hPhase
  · next hPhase => exact .lapse hPhase
  · exact .pacing
  · next hPacing hFirst hSecond =>
      exact .refused (fun h => hFirst h.1 h.2) (fun h => hSecond h.1 h.2) hPacing

/-- What every delivery of a due timer keeps, the delivery of all due timers keeps. -/
theorem deliver_keeps {P : Coded α → Prop} {now : Instant}
    (hStep : ∀ (c : Coded α) (timer : Timer), c.timers.isExpired timer now = true → P c →
      P (c.onTimer timer now).2)
    (timers : List Timer) (c : Coded α) (release : Bool) (h : P c) :
    P (c.deliver now timers release).2 := by
  induction timers generalizing c release with
  | nil => exact h
  | cons timer rest ih =>
      unfold deliver
      split
      · next hDue =>
          have hNext := hStep c timer hDue h
          split
          · next more next hResult =>
              rw [hResult] at hNext
              exact ih next (release || more) hNext
          · next fault next hResult =>
              rw [hResult] at hNext
              exact hNext
      · exact ih c release h

/-- Timers change neither the settings nor the terms of the round trip. -/
theorem terms_onTimer (c : Coded α) (timer : Timer) (now : Instant) :
    (c.onTimer timer now).2.config = c.config ∧ (c.onTimer timer now).2.scaling = c.scaling := by
  have hStep := delivers_onTimer c timer now
  generalize c.onTimer timer now = result at hStep ⊢
  cases hStep <;> exact ⟨rfl, rfl⟩

theorem terms_onTimeout (c : Coded α) (now : Instant) :
    (c.onTimeout now).2.config = c.config ∧ (c.onTimeout now).2.scaling = c.scaling := by
  refine deliver_keeps (P := fun d => d.config = c.config ∧ d.scaling = c.scaling)
    (fun d timer _ hSame => ?_) _ c false ⟨rfl, rfl⟩
  obtain ⟨hConfig, hScaling⟩ := d.terms_onTimer timer now
  exact ⟨hConfig.trans hSame.1, hScaling.trans hSame.2⟩

end

variable [PowerScalar α]

/-- The window after an event. -/
def after (c : Coded α) : WindowEvent → Coded α
  | .ack p now => (c.onAck p now).2
  | .measured estimate => { c with toWindowState := c.toWindowState.measured estimate }
  | .sent paced => { c with toWindowState := c.toWindowState.sent paced }
  | .timer timer now => (c.onTimer timer now).2
  | .timeout now => (c.onTimeout now).2
  | .pace now => { c with toWindowState := (c.toWindowState.pace now).2 }
  | .reset => c.reset
  | .close => { c with toWindowState := c.toWindowState.close }

/-- The window after a list of events, the first one first. -/
def run (c : Coded α) (events : List WindowEvent) : Coded α :=
  events.foldl after c

theorem run_append (c : Coded α) (first second : List WindowEvent) :
    c.run (first ++ second) = (c.run first).run second :=
  List.foldl_append

theorem run_cons (c : Coded α) (event : WindowEvent) (rest : List WindowEvent) :
    c.run (event :: rest) = (c.after event).run rest := rfl

/-- What every event keeps, every run keeps. -/
theorem run_keeps {P : Coded α → Prop} (hStep : ∀ c event, P c → P (c.after event))
    (events : List WindowEvent) (c : Coded α) (h : P c) : P (c.run events) := by
  induction events generalizing c with
  | nil => exact h
  | cons event rest ih => exact ih (c.after event) (hStep c event h)

/-- An acknowledgment either is refused and changes nothing, or is answered by the action for its
code. -/
theorem onAck_cases (c : Coded α) (p : Packet) (now : Instant) :
    (∃ fault, check p = .error fault ∧ c.onAck p now = (.error fault, c)) ∨
      ∃ code, check p = .ok code ∧ c.onAck p now = (.ok code, c.respond code now) := by
  cases h : check p with
  | error fault => exact Or.inl ⟨fault, rfl, by simp [onAck, h]⟩
  | ok code => exact Or.inr ⟨code, rfl, by simp [onAck, h]⟩

/-- What holds before an acknowledgment and after every answer to it, holds after it. -/
theorem after_ack_keeps {P : Coded α → Prop} {c : Coded α} (p : Packet) (now : Instant) (h : P c)
    (hAnswer : ∀ code, P (c.respond code now)) : P (c.after (.ack p now)) := by
  rcases c.onAck_cases p now with ⟨fault, _, hResult⟩ | ⟨code, _, hResult⟩
  · simpa only [after, hResult] using h
  · simpa only [after, hResult] using hAnswer code

theorem action_respond (c : Coded α) (code : LoadCode) (now : Instant) :
    (c.respond code now).action = c.choose code := rfl

/-- Only a decrease moves the hold-down. -/
theorem phase_respond (c : Coded α) (code : LoadCode) (now : Instant) :
    (c.respond code now).phase = if c.choose code = .decrease then .first else c.phase := by
  cases h : c.choose code <;> simp [respond, act, h, holdDown, cut]

/-- Only a decrease arms a timer. -/
theorem timers_respond (c : Coded α) (code : LoadCode) (now : Instant) :
    (c.respond code now).timers =
      if c.choose code = .decrease then c.timers.setAfter .holdDownFirst now c.freezeSpan
      else c.timers := by
  cases h : c.choose code <;> simp [respond, act, h, holdDown, cut, WindowState.grow]

/-- An action is counted once, and a decrease also as a cut. -/
theorem tally_respond (c : Coded α) (code : LoadCode) (now : Instant) :
    (c.respond code now).tally =
      (if c.choose code = .decrease then { c.tally with cuts := c.tally.cuts + 1 }
        else c.tally).count (c.choose code) := by
  cases h : c.choose code <;> simp [respond, act, h, holdDown, cut, WindowState.grow]

theorem scaling_respond (c : Coded α) (code : LoadCode) (now : Instant) :
    (c.respond code now).scaling = c.scaling := by
  cases h : c.choose code <;> simp [respond, act, h, holdDown, cut, WindowState.grow]

theorem config_respond (c : Coded α) (code : LoadCode) (now : Instant) :
    (c.respond code now).config = c.config := by
  cases h : c.choose code <;> simp [respond, act, h, holdDown, cut, WindowState.grow]

/-- The settings stay as they are, also through a reset. -/
theorem config_after (c : Coded α) (event : WindowEvent) : (c.after event).config = c.config := by
  cases event with
  | ack p now =>
      exact after_ack_keeps (P := fun d => d.config = c.config) p now rfl
        fun code => c.config_respond code now
  | sent paced => cases paced <;> rfl
  | timer timer now => exact (c.terms_onTimer timer now).1
  | timeout now => exact (c.terms_onTimeout now).1
  | pace now =>
      obtain ⟨timers, hPace, _⟩ := c.toWindowState.pace_cases now
      simp only [after, hPace]
  | measured | reset | close => rfl

theorem config_run (c : Coded α) (events : List WindowEvent) : (c.run events).config = c.config :=
  run_keeps (P := fun d => d.config = c.config)
    (fun d event hSame => (d.config_after event).trans hSame) events c rfl

end Coded

end LoadFeedback
