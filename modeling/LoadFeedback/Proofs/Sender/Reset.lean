import LoadFeedback.Proofs.Sender.Bounds

/-! A window or an estimate of the round trip that starts anew knows nothing of what it went through:
no event changes what a reset comes to, so it comes to the state that was there at first. -/
namespace LoadFeedback

section

variable {α : Type} [Scalar α]

theorem Coded.reset_onTimer (c : Coded α) (timer : Timer) (now : Instant) :
    (c.onTimer timer now).2.reset = c.reset := by
  have hStep := delivers_onTimer c timer now
  generalize c.onTimer timer now = result at hStep ⊢
  cases hStep <;> rfl

theorem Raw.reset_onTimeout (r : Raw α) (now : Instant) : (r.onTimeout now).2.reset = r.reset := by
  unfold onTimeout
  split <;> rfl

theorem Controller.reset_start (config : SenderConfig α) (tables : WindowTables α) :
    (start config tables).reset = start config tables := by
  unfold start
  split <;> rfl

end

section

variable {α : Type} [PowerScalar α]

/-- What an acknowledgment changes, a reset sets anew. -/
theorem Coded.reset_respond (c : Coded α) (code : LoadCode) (now : Instant) :
    (c.respond code now).reset = c.reset := by
  unfold respond
  cases c.choose code <;> rfl

theorem Coded.reset_after (c : Coded α) (event : WindowEvent) : (c.after event).reset = c.reset := by
  cases event with
  | ack p now =>
      exact after_ack_keeps (P := fun d => d.reset = c.reset) p now rfl (c.reset_respond · now)
  | sent paced => cases paced <;> rfl
  | timer timer now => exact c.reset_onTimer timer now
  | timeout now =>
      exact deliver_keeps (P := fun d => d.reset = c.reset)
        (fun d timer _ hSame => (d.reset_onTimer timer now).trans hSame) _ c false rfl
  | pace now =>
      obtain ⟨timers, hPace, _⟩ := c.toWindowState.pace_cases now
      simp only [after, hPace]
      rfl
  | measured | reset | close => rfl

theorem Raw.reset_onAck (r : Raw α) (p : Packet) : (r.onAck p).2.reset = r.reset := by
  unfold onAck
  split <;> rfl

namespace Controller

/-- No event changes what a reset of the window comes to. -/
theorem reset_after (c : Controller α) (event : WindowEvent) : (c.after event).reset = c.reset := by
  cases c with
  | coded c =>
      rw [after_coded]
      exact congrArg coded (c.reset_after event)
  | raw r =>
      cases event with
      | ack p now => exact congrArg raw (r.reset_onAck p)
      | sent paced => cases paced <;> rfl
      | timer timer now => cases timer <;> rfl
      | timeout now => exact congrArg raw (r.reset_onTimeout now)
      | pace now =>
          obtain ⟨timers, hPace, _⟩ := r.toWindowState.pace_cases now
          have hSame : ((raw r).pace now).2 = raw ⟨{ r.toWindowState with timers := timers }⟩ :=
            congrArg (fun s => raw ⟨s⟩) hPace
          rw [after, hSame]
          rfl
      | measured | reset | close => rfl

theorem reset_run (c : Controller α) (events : List WindowEvent) : (c.run events).reset = c.reset := by
  induction events generalizing c with
  | nil => rfl
  | cons event rest ih => exact (ih (c.after event)).trans (c.reset_after event)

end Controller
end

/-- What can happen to an estimate of the round trip. -/
inductive RoundTripEvent where
  | sample (span : Span)
  | reset

namespace RoundTrip

def after (r : RoundTrip) : RoundTripEvent → RoundTrip
  | .sample span => r.update span
  | .reset => r.reset

/-- The estimate after some events, the first one first. -/
def run (r : RoundTrip) (events : List RoundTripEvent) : RoundTrip := events.foldl after r

theorem reset_update (r : RoundTrip) (sample : Span) : (r.update sample).reset = r.reset := by
  unfold update
  split <;> rfl

theorem reset_run (r : RoundTrip) (events : List RoundTripEvent) : (r.run events).reset = r.reset := by
  induction events generalizing r with
  | nil => rfl
  | cons event rest ih =>
      refine (ih (r.after event)).trans ?_
      cases event with
      | sample span => exact r.reset_update span
      | reset => rfl

end RoundTrip
end LoadFeedback
