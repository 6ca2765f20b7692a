import LoadFeedback.Proofs.Sender.Bounds

/-! Where the terms of a window come from. Only a new estimate of the round trip and a reset set them,
so they are always those of the typical round trip or those of one estimate. -/
namespace LoadFeedback

/-- The terms of the typical round trip, or those of an estimate. -/
def Scaling.Derived {α : Type} [Scalar α] (terms : Scaling α) (linkInterval : Span) : Prop :=
  terms = .start linkInterval ∨ ∃ estimate, terms = (Scaling.start linkInterval).update estimate

namespace Scaling.Derived

variable {α : Type} [Scalar α] {terms : Scaling α} {linkInterval : Span}

theorem linkInterval_eq (h : terms.Derived linkInterval) : terms.linkInterval = linkInterval := by
  rcases h with rfl | ⟨_, rfl⟩ <;> rfl

/-- An update depends on the terms before it only in the interval of the links. -/
theorem update_eq (h : terms.Derived linkInterval) (estimate : RoundTrip) :
    terms.update estimate = (start linkInterval).update estimate := by
  simp only [update, start, h.linkInterval_eq]

theorem update (h : terms.Derived linkInterval) (estimate : RoundTrip) :
    (terms.update estimate).Derived linkInterval :=
  Or.inr ⟨estimate, h.update_eq estimate⟩

theorem reset (h : terms.Derived linkInterval) : terms.reset.Derived linkInterval :=
  Or.inl (congrArg start h.linkInterval_eq)

end Scaling.Derived

namespace Controller

variable {α : Type} [PowerScalar α] {c : Controller α} {linkInterval : Span}

theorem scaling_onAck (c : Controller α) (p : Packet) (now : Instant) :
    (c.onAck p now).2.state.scaling = c.state.scaling := by
  cases c with
  | coded c =>
      rcases c.onAck_cases p now with ⟨fault, _, hResult⟩ | ⟨code, _, hResult⟩
      · rw [onAck, hResult]
        rfl
      · rw [onAck, hResult]
        exact c.scaling_respond code now
  | raw r =>
      simp only [onAck, Raw.onAck, Prod.map_snd]
      split <;> rfl

/-- An update replaces all terms and keeps the interval of the links. -/
theorem derived_after (h : c.state.scaling.Derived linkInterval) (event : WindowEvent) :
    (c.after event).state.scaling.Derived linkInterval := by
  have hKept {d : Controller α} (alike : c.Alike d) : d.state.scaling.Derived linkInterval := by
    rw [alike.scaling_eq]
    exact h
  cases event with
  | ack p now =>
      rw [after, scaling_onAck]
      exact h
  | measured estimate =>
      rw [after, measured, state_withState]
      exact h.update estimate
  | reset =>
      have hReset : c.reset.state.scaling = c.state.scaling.reset := by cases c <;> rfl
      rw [after, hReset]
      exact h.reset
  | sent paced => exact hKept (c.alike_sent paced)
  | timer timer now => exact hKept (c.alike_onTimer timer now)
  | timeout now => exact hKept (c.alike_onTimeout now)
  | pace now => exact hKept (c.alike_pace now)
  | close => exact hKept c.alike_close

theorem derived_start (config : SenderConfig α) (tables : WindowTables α) :
    (start config tables).state.scaling.Derived config.linkInterval := by
  unfold start
  split <;> exact Or.inl rfl

end Controller
end LoadFeedback
