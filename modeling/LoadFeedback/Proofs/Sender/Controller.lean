import LoadFeedback.Proofs.Sender.Event
import LoadFeedback.Sender.Controller

/-! What a flow relies on in its window, under either law. Only acknowledgments change the window and
are counted as such, and every acknowledgment that passes the check is taken. -/
namespace LoadFeedback

variable {α : Type}

/-- Both states allow the same packets, and have counted the same acknowledgments and paced
packets. -/
structure WindowState.Agrees (s t : WindowState α) : Prop where
  window_eq : t.window = s.window
  acks_eq : t.tally.acks = s.tally.acks
  paced_eq : t.tally.pacedPackets = s.tally.pacedPackets

namespace WindowState

theorem Agrees.refl (s : WindowState α) : s.Agrees s := ⟨rfl, rfl, rfl⟩

theorem Agrees.trans {s t u : WindowState α} (h : s.Agrees t) (k : t.Agrees u) : s.Agrees u :=
  ⟨k.window_eq.trans h.window_eq, k.acks_eq.trans h.acks_eq, k.paced_eq.trans h.paced_eq⟩

theorem agrees_pace [Scalar α] (s : WindowState α) (now : Instant) : s.Agrees (s.pace now).2 := by
  obtain ⟨timers, hPace, _⟩ := s.pace_cases now
  rw [hPace]
  exact ⟨rfl, rfl, rfl⟩

end WindowState

theorem Raw.agrees_onTimer (r : Raw α) (timer : Timer) :
    r.toWindowState.Agrees (r.onTimer timer).2.toWindowState := by
  cases timer <;> exact ⟨rfl, rfl, rfl⟩

theorem Raw.agrees_onTimeout (r : Raw α) (now : Instant) :
    r.toWindowState.Agrees (r.onTimeout now).2.toWindowState := by
  unfold onTimeout
  split
  · exact r.agrees_onTimer .pacing
  · exact .refl _

section

variable [Scalar α]

theorem SenderConfig.validate_eq_ok_iff {config : SenderConfig α} :
    config.validate = .ok () ↔ config.fault? = none := by
  unfold validate
  cases config.fault? <;> simp

/-- Settings that are accepted decide the window that is built. -/
theorem Controller.build_eq_ok_iff {config : SenderConfig α} {tables : WindowTables α}
    {c : Controller α} :
    build config tables = .ok c ↔ config.validate = .ok () ∧ c = start config tables := by
  unfold build
  cases config.validate <;> simp [Except.map, eq_comm]

theorem Coded.agrees_onTimer (c : Coded α) (timer : Timer) (now : Instant) :
    c.toWindowState.Agrees (c.onTimer timer now).2.toWindowState := by
  have hStep := delivers_onTimer c timer now
  generalize c.onTimer timer now = result at hStep ⊢
  cases hStep <;> exact ⟨rfl, rfl, rfl⟩

theorem Coded.agrees_onTimeout (c : Coded α) (now : Instant) :
    c.toWindowState.Agrees (c.onTimeout now).2.toWindowState :=
  deliver_keeps (P := fun d => c.toWindowState.Agrees d.toWindowState)
    (fun d timer _ h => h.trans (d.agrees_onTimer timer now)) _ c false (.refl _)

end

namespace Controller

/-- Whether the window is set by codes. -/
def isCoded : Controller α → Bool
  | coded _ => true
  | raw _ => false

/-- The check looks at the packet and the law, and at nothing that an acknowledgment changes. -/
theorem check_eq_ok_iff (c : Controller α) (p : Packet) :
    c.check p = .ok () ↔ p.isData = false ∧ (c.isCoded = true → p.feedback.code? ≠ none) := by
  cases c with
  | coded c =>
      cases hData : p.isData <;> cases hCode : p.feedback.code? <;>
        simp [check, Coded.check, isCoded, hData, hCode, Except.map]
  | raw r => cases hData : p.isData <;> simp [check, Raw.check, isCoded, hData, Except.map]

theorem check_cases (c : Controller α) (p : Packet) :
    c.check p = .ok () ∨ ∃ fault, c.check p = .error fault := by
  cases h : c.check p with
  | ok answer => exact Or.inl rfl
  | error fault => exact Or.inr ⟨fault, rfl⟩

@[simp] theorem state_withState (c : Controller α) (s : WindowState α) :
    (c.withState s).state = s := by
  cases c <;> rfl

/-- Which law it is decides what an acknowledgment must carry. -/
@[simp] theorem check_withState (c : Controller α) (s : WindowState α) (p : Packet) :
    (c.withState s).check p = c.check p := by
  cases c <;> rfl

theorem agrees_close (c : Controller α) : c.state.Agrees c.close.state := by
  rw [close, state_withState]
  exact ⟨rfl, rfl, rfl⟩

/-- A packet that leaves is counted if it was paced, and changes nothing else. -/
theorem state_sent (c : Controller α) (paced : Bool) :
    (c.sent paced).state.window = c.state.window ∧
      (c.sent paced).state.tally.acks = c.state.tally.acks ∧
      (c.sent paced).state.tally.pacedPackets =
        if paced then c.state.tally.pacedPackets + 1 else c.state.tally.pacedPackets := by
  rw [sent, state_withState]
  cases paced <;> exact ⟨rfl, rfl, rfl⟩

section

variable [Scalar α]

theorem agrees_onTimer (c : Controller α) (timer : Timer) (now : Instant) :
    c.state.Agrees (c.onTimer timer now).2.state := by
  cases c with
  | coded c => exact c.agrees_onTimer timer now
  | raw r => exact r.agrees_onTimer timer

theorem agrees_onTimeout (c : Controller α) (now : Instant) :
    c.state.Agrees (c.onTimeout now).2.state := by
  cases c with
  | coded c => exact c.agrees_onTimeout now
  | raw r => exact r.agrees_onTimeout now

theorem agrees_measured (c : Controller α) (estimate : RoundTrip) :
    c.state.Agrees (c.measured estimate).state := by
  rw [measured, state_withState]
  exact ⟨rfl, rfl, rfl⟩

theorem agrees_pace (c : Controller α) (now : Instant) : c.state.Agrees (c.pace now).2.state := by
  simp only [pace, Prod.map, state_withState]
  exact c.state.agrees_pace now

/-- Nothing is counted in a window that was reset. -/
theorem tally_reset (c : Controller α) : c.reset.state.tally = {} := by
  cases c <;> rfl

theorem tally_start (config : SenderConfig α) (tables : WindowTables α) :
    (start config tables).state.tally = {} := by
  unfold start
  split <;> rfl

end

/-- The check fails only for data packets and, under the coded law, for fields that are no code. -/
theorem not_invalidPacket_of_check {c : Controller α} {p : Packet} {fault : Fault}
    (h : c.check p = .error fault) (hAck : p.isData = false) : fault ≠ .invalidPacket := by
  cases c with
  | coded c =>
      simp only [check, Coded.check, hAck, Bool.false_eq_true, ↓reduceIte] at h
      cases hCode : p.feedback.code? with
      | some code => simp [hCode, Except.map] at h
      | none =>
          simp only [hCode, Except.map, Except.error.injEq] at h
          subst h
          exact Fault.noConfusion
  | raw r => simp [check, Raw.check, hAck, Except.map] at h

variable [PowerScalar α]

/-- An acknowledgment that passes the check is taken and counted once. -/
theorem onAck_of_check {c : Controller α} {p : Packet} (h : c.check p = .ok ()) (now : Instant) :
    ∃ d, c.onAck p now = (.ok (), d) ∧
      d.state.tally.acks = c.state.tally.acks + 1 ∧
      d.state.tally.pacedPackets = c.state.tally.pacedPackets := by
  cases c with
  | coded c =>
      rcases c.onAck_cases p now with ⟨fault, hCheck, _⟩ | ⟨code, _, hResult⟩
      · simp [check, hCheck, Except.map] at h
      · refine ⟨coded (c.respond code now), by simp [onAck, hResult, Except.map], ?_⟩
        simp only [state, Coded.tally_respond]
        cases c.choose code <;> exact ⟨rfl, rfl⟩
  | raw r =>
      cases hCheck : Raw.check p with
      | error fault => simp [check, hCheck, Except.map] at h
      | ok loadFactor =>
          refine ⟨raw (r.respond loadFactor), by simp [onAck, Raw.onAck, hCheck, Except.map], ?_⟩
          simp only [state, Raw.respond]
          split <;> exact ⟨rfl, rfl⟩

end Controller
end LoadFeedback
