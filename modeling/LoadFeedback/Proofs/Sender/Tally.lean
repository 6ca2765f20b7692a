import LoadFeedback.Proofs.Sender.HoldDown

/-! How often a coded window is decreased. Its tally and its phase count the same decreases, however
acknowledgments, timers and refused calls are mixed. -/
namespace LoadFeedback

/-- How many hold-down timers still have to run out. -/
def HoldDownPhase.remaining : HoldDownPhase → Nat
  | .none => 0
  | .first => 2
  | .second => 1

namespace Coded

variable {α : Type}

/-- Every acknowledgment was counted as one action, every decrease as one cut, and every decrease is
followed by two hold-down timers, of which the present phase says how many are left. -/
structure Balanced (c : Coded α) : Prop where
  acks_eq : c.tally.acks =
    c.tally.increases + c.tally.additions + c.tally.decreases + c.tally.freezes
  cuts_eq : c.tally.cuts = c.tally.decreases
  timeouts_eq : 2 * c.tally.decreases = c.tally.holdDownTimeouts + c.phase.remaining

/-- A window of which nothing is counted yet: a new one, or one that was reset. -/
def IsFresh [Scalar α] (c : Coded α) : Prop :=
  (∃ config tables, c = start config tables) ∨ ∃ d : Coded α, c = d.reset

theorem IsFresh.tally_phase [Scalar α] {c : Coded α} (h : c.IsFresh) :
    c.tally = {} ∧ c.phase = .none := by
  rcases h with ⟨config, tables, rfl⟩ | ⟨d, rfl⟩ <;> exact ⟨rfl, rfl⟩

theorem IsFresh.balanced [Scalar α] {c : Coded α} (h : c.IsFresh) : c.Balanced := by
  obtain ⟨hTally, hPhase⟩ := h.tally_phase
  constructor <;> simp [hTally, hPhase, HoldDownPhase.remaining]

theorem IsFresh.aligned [Scalar α] {c : Coded α} (h : c.IsFresh) : c.Aligned false := by
  rcases h with ⟨config, tables, rfl⟩ | ⟨d, rfl⟩
  · exact aligned_start config tables
  · exact .of_idle rfl fun _ => rfl

namespace Balanced

variable {c d : Coded α}

/-- Packets that leave are counted apart from acknowledgments and timers. -/
theorem of_paced (h : c.Balanced) (paced : Nat) (hPhase : d.phase = c.phase)
    (hTally : d.tally = { c.tally with pacedPackets := paced }) : d.Balanced where
  acks_eq := by rw [hTally]; exact h.acks_eq
  cuts_eq := by rw [hTally]; exact h.cuts_eq
  timeouts_eq := by rw [hTally, hPhase]; exact h.timeouts_eq

section

variable [Scalar α]

theorem onTimer (h : c.Balanced) (timer : Timer) (now : Instant) :
    (c.onTimer timer now).2.Balanced := by
  have hTimeouts := h.timeouts_eq
  have hStep := delivers_onTimer c timer now
  generalize c.onTimer timer now = result at hStep ⊢
  cases hStep with
  | thaw hPhase =>
      rw [hPhase] at hTimeouts
      exact ⟨h.acks_eq, h.cuts_eq, by simp only [HoldDownPhase.remaining] at hTimeouts ⊢; omega⟩
  | lapse hPhase =>
      rw [hPhase] at hTimeouts
      exact ⟨h.acks_eq, h.cuts_eq, by simp only [HoldDownPhase.remaining] at hTimeouts ⊢; omega⟩
  | pacing => exact ⟨h.acks_eq, h.cuts_eq, hTimeouts⟩
  | refused => exact ⟨h.acks_eq, h.cuts_eq, hTimeouts⟩

theorem onTimeout (h : c.Balanced) (now : Instant) : (c.onTimeout now).2.Balanced :=
  deliver_keeps (fun _ timer _ hStep => hStep.onTimer timer now) _ c false h

end

variable [PowerScalar α]

/-- A decrease is counted when no timer is left, and then two are. -/
theorem respond (h : c.Balanced) (code : LoadCode) (now : Instant) :
    (c.respond code now).Balanced := by
  have hAcks := h.acks_eq
  have hCuts := h.cuts_eq
  have hTimeouts := h.timeouts_eq
  cases hAction : c.choose code with
  | increase =>
      constructor <;> simp [tally_respond, phase_respond, hAction, Tally.count] <;> omega
  | add => constructor <;> simp [tally_respond, phase_respond, hAction, Tally.count] <;> omega
  | freeze => constructor <;> simp [tally_respond, phase_respond, hAction, Tally.count] <;> omega
  | decrease =>
      rw [(choose_eq_decrease.mp hAction).2] at hTimeouts
      simp only [HoldDownPhase.remaining] at hTimeouts
      constructor <;>
        simp [tally_respond, phase_respond, hAction, Tally.count, HoldDownPhase.remaining] <;> omega

/-- One event keeps the tally balanced, also where it is refused or comes too early. -/
theorem after (h : c.Balanced) (event : WindowEvent) : (c.after event).Balanced := by
  cases event with
  | ack p now => exact after_ack_keeps p now h fun code => h.respond code now
  | measured estimate => exact h.of_paced c.tally.pacedPackets rfl rfl
  | sent paced =>
      cases paced with
      | false => exact h.of_paced c.tally.pacedPackets rfl rfl
      | true => exact h.of_paced (c.tally.pacedPackets + 1) rfl rfl
  | timer timer now => exact h.onTimer timer now
  | timeout now => exact h.onTimeout now
  | pace now =>
      obtain ⟨timers, hPace, _⟩ := c.toWindowState.pace_cases now
      exact h.of_paced c.tally.pacedPackets rfl (by simp only [Coded.after, hPace])
  | reset => exact IsFresh.balanced (Or.inr ⟨c, rfl⟩)
  | close => exact h.of_paced c.tally.pacedPackets rfl rfl

theorem run (h : c.Balanced) (events : List WindowEvent) : (c.run events).Balanced :=
  run_keeps (fun _ event hStep => hStep.after event) events c h

end Balanced
end Coded
end LoadFeedback
