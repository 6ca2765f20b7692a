import LoadFeedback.Proofs.Sender.Controller
import LoadFeedback.Sender.Flow

/-! What one call does to a flow. Packets leave from three places, but always in the same way: the
call first settles its bookkeeping, then packets depart one by one while the window and the limit
allow it, and at the end the pacing timer may be armed. -/
namespace LoadFeedback

/-- One call on a flow. A refused call is an event as well. -/
inductive FlowEvent where
  /-- The flow may send. -/
  | send (now : Instant)
  /-- An acknowledgment, or any other packet in its place. -/
  | ack (packet : Packet) (now : Instant)
  /-- One timer is delivered, due or not. -/
  | timer (timer : Timer) (now : Instant)
  /-- Every due timer is delivered. -/
  | timeout (now : Instant)
  /-- The application makes packets available. -/
  | limit (packets : Nat)
  /-- Every timer is disarmed. -/
  | close
  /-- The flow starts anew. -/
  | reset

namespace Flow

variable {α : Type}

/-- The packets that a call returns, none where it is refused. -/
def returned : Attempt (Flow α) (List Packet) → List Packet × Flow α
  | (.ok packets, f) => (packets, f)
  | (.error _, f) => ([], f)

section

variable [Scalar α]

/-- Settings that are accepted decide the flow that is built. -/
theorem build_eq_ok_iff {id : Nat} {config : SenderConfig α} {tables : WindowTables α} {f : Flow α} :
    build id config tables = .ok f ↔
      config.validate = .ok () ∧ f = withController id config.packetSize (.start config tables) := by
  unfold build
  constructor
  · intro h
    cases hWindow : Controller.build config tables with
    | error fault => simp [hWindow, Except.map] at h
    | ok c =>
        obtain ⟨hValid, rfl⟩ := Controller.build_eq_ok_iff.mp hWindow
        simp only [hWindow, Except.map, Except.ok.injEq] at h
        exact ⟨hValid, h.symm⟩
  · rintro ⟨hValid, rfl⟩
    rw [Controller.build_eq_ok_iff.mpr ⟨hValid, rfl⟩]
    rfl

/-- Packets that leave one after the other, each at a moment when it may. At the end the pacing timer
may be armed for the next one. -/
inductive Departs (now : Instant) (paced : Bool) : Flow α → List Packet → Flow α → Prop where
  | done (f : Flow α) : Departs now paced f [] f
  | armed (f : Flow α) : Departs now paced f [] { f with controller := (f.controller.pace now).2 }
  | next {f g : Flow α} {packets : List Packet} (may : f.maySend = true)
      (rest : Departs now paced (f.sendOne now paced).2 packets g) :
      Departs now paced f ((f.sendOne now paced).1 :: packets) g

theorem departs_burst (f : Flow α) (now : Instant) :
    Departs now false f (f.burst now).1 (f.burst now).2 := by
  fun_induction burst f now with
  | case1 f may sent rest ih => exact .next may ih
  | case2 f mayNot => exact .done f

theorem departs_release (f : Flow α) (released : Bool) (now : Instant) :
    Departs now true f (f.release released now).1 (f.release released now).2 := by
  unfold release
  split
  · next h => exact .next (Bool.and_eq_true_iff.mp h).2 (.done _)
  · exact .done f

theorem departs_sendMany (f : Flow α) (now : Instant) :
    Departs now false f (f.sendMany now).1 (f.sendMany now).2 := by
  unfold sendMany
  split
  · next may =>
      split
      · refine .next may ?_
        dsimp only
        split
        · exact .armed _
        · exact .done _
      · exact departs_burst f now
  · exact .done f

/-- Everything that a call can do to a flow before packets depart: nothing, count a duplicate, take a
new acknowledgment with whatever it does to the window, deliver or disarm timers, set the limit, or
start anew. -/
inductive Settles (f : Flow α) : FlowEvent → Flow α → Prop where
  | unchanged (event : FlowEvent) (notReset : event ≠ .reset) : Settles f event f
  | duplicate {p : Packet} {now : Instant} (h : p.seq ≤ f.acked) : Settles f (.ack p now)
      { f with tally := { f.tally with duplicates := f.tally.duplicates + 1 } }
  | accepted {p : Packet} {now : Instant} (estimate : RoundTrip) (controller : Controller α)
      (isNew : f.acked < p.seq) (wasSent : p.seq ≤ f.nextSeq)
      (hAcks : controller.state.tally.acks = f.controller.state.tally.acks + 1)
      (hPaced : controller.state.tally.pacedPackets = f.controller.state.tally.pacedPackets) :
      Settles f (.ack p now)
        { f with
          acked := p.seq, tally := { f.tally with acks := f.tally.acks + 1 }
          roundTrip := estimate, controller := controller }
  | timers (event : FlowEvent) (notReset : event ≠ .reset) (controller : Controller α)
      (h : f.controller.state.Agrees controller.state) :
      Settles f event { f with controller := controller }
  | limited (packets : Nat) : Settles f (.limit packets) (f.setLimit packets)
  | restarted : Settles f .reset f.reset

/-- Packets that depart raise the next number, and move nothing that bounds it. -/
theorem Departs.keeps {f g : Flow α} {now : Instant} {paced : Bool} {packets : List Packet}
    (run : Departs now paced f packets g) : f.nextSeq ≤ g.nextSeq ∧ g.acked = f.acked ∧
      g.controller.window = f.controller.window ∧ g.limit = f.limit := by
  induction run with
  | done f => exact ⟨Nat.le_refl _, rfl, rfl, rfl⟩
  | armed f => exact ⟨Nat.le_refl _, rfl, (f.controller.agrees_pace now).window_eq, rfl⟩
  | @next f g packets may rest ih =>
      obtain ⟨hNext, hAcked, hWindow, hLimit⟩ := ih
      have hSame := (f.controller.state_sent paced).1
      exact ⟨Nat.le_of_succ_le hNext, hAcked, hWindow.trans hSame, hLimit⟩

/-- Only an acknowledgment moves the acknowledged count, and no bookkeeping the next number. -/
theorem Settles.keeps {f g : Flow α} {event : FlowEvent} (step : Settles f event g)
    (notReset : event ≠ .reset) : g.nextSeq = f.nextSeq ∧
      (g.acked = f.acked ∨ ∃ p now, event = .ack p now ∧ g.acked = p.seq) := by
  cases step with
  | accepted => exact ⟨rfl, Or.inr ⟨_, _, rfl, rfl⟩⟩
  | restarted => exact absurd rfl notReset
  | unchanged | duplicate | timers | limited => exact ⟨rfl, Or.inl rfl⟩

/-- Timers that were delivered let at most one paced packet depart. -/
theorem settles_afterTimers (f : Flow α) (event : FlowEvent) (notReset : event ≠ .reset)
    (now : Instant) (result : Attempt (Controller α) Bool)
    (h : f.controller.state.Agrees result.2.state) :
    ∃ g, Settles f event g ∧
      Departs now true g (returned (f.afterTimers now result)).1
        (returned (f.afterTimers now result)).2 := by
  obtain ⟨outcome, controller⟩ := result
  refine ⟨_, .timers event notReset controller h, ?_⟩
  cases outcome with
  | ok released => exact departs_release _ released now
  | error fault => exact .done _

/-- Learning the round trip leaves the flow ready to count an acknowledgment. -/
theorem learn_cases (f : Flow α) (ack : Packet) (now : Instant) :
    ∃ estimate controller, f.learn ack now =
        { f with roundTrip := estimate, controller := controller } ∧
      f.controller.state.Agrees controller.state ∧
      ∀ p, controller.check p = f.controller.check p := by
  unfold learn
  split
  · exact ⟨f.roundTrip, f.controller, rfl, .refl _, fun _ => rfl⟩
  · exact ⟨_, _, rfl, f.controller.agrees_measured _, f.controller.check_withState _⟩

end

variable [PowerScalar α]

/-- The packets that a call returns, and the flow after it. -/
def after (f : Flow α) : FlowEvent → List Packet × Flow α
  | .send now => f.sendMany now
  | .ack p now => returned (f.onAck p now)
  | .timer timer now => returned (f.onTimer timer now)
  | .timeout now => returned (f.onTimeout now)
  | .limit packets => ([], f.setLimit packets)
  | .close => ([], f.close)
  | .reset => ([], f.reset)

/-- A new acknowledgment that passes the check is taken by the window before packets depart, and the
window does not refuse it. -/
theorem accept_of_check {f : Flow α} {p : Packet} (now : Instant) (isNew : f.acked < p.seq)
    (wasSent : p.seq ≤ f.nextSeq) (hCheck : f.controller.check p = .ok ()) :
    ∃ g, Settles f (.ack p now) g ∧ g.acked = p.seq ∧
      f.accept p now = (.ok (g.sendMany now).1, (g.sendMany now).2) := by
  obtain ⟨estimate, measured, hLearn, hAgrees, hSame⟩ := learn_cases
    { f with acked := p.seq, tally := { f.tally with acks := f.tally.acks + 1 } } p now
  obtain ⟨controller, hTaken, hAcks, hPaced⟩ :=
    Controller.onAck_of_check ((hSame p).trans hCheck) now
  refine ⟨_, .accepted estimate controller isNew wasSent (hAcks.trans ?_)
    (hPaced.trans hAgrees.paced_eq), rfl, ?_⟩
  · rw [hAgrees.acks_eq]
  · simp only [accept, hLearn, hTaken]

/-- An acknowledgment is refused without a trace, or a duplicate, or new. -/
theorem onAck_cases (f : Flow α) (p : Packet) (now : Instant) :
    (∃ fault, f.onAck p now = (.error fault, f) ∧
      (fault = .invalidPacket → p.isData = true ∨ f.nextSeq < p.seq)) ∨
    (p.seq ≤ f.acked ∧ f.onAck p now =
      (.ok [], { f with tally := { f.tally with duplicates := f.tally.duplicates + 1 } })) ∨
    ∃ g, Settles f (.ack p now) g ∧ g.acked = p.seq ∧
      f.onAck p now = (.ok (g.sendMany now).1, (g.sendMany now).2) := by
  unfold onAck
  split
  · next hInvalid =>
      refine Or.inl ⟨.invalidPacket, rfl, fun _ => ?_⟩
      simpa using hInvalid
  · next hValid =>
      have ⟨hAck, hSent⟩ : p.isData = false ∧ p.seq ≤ f.nextSeq := by simpa using hValid
      split
      · next hOld => exact Or.inr (Or.inl ⟨hOld, rfl⟩)
      · next hNew =>
          split
          · next hCheck =>
              exact Or.inr (Or.inr (accept_of_check now (Nat.lt_of_not_le hNew) hSent hCheck))
          · next fault hCheck =>
              exact Or.inl ⟨fault, rfl, fun hFault =>
                absurd hFault (Controller.not_invalidPacket_of_check hCheck hAck)⟩

/-- Every call settles its bookkeeping, and then packets depart. -/
theorem settles_after (f : Flow α) (event : FlowEvent) :
    ∃ now paced g, Settles f event g ∧ Departs now paced g (f.after event).1 (f.after event).2 := by
  cases event with
  | send now => exact ⟨now, false, f, .unchanged _ nofun, departs_sendMany f now⟩
  | ack p now =>
      rcases f.onAck_cases p now with ⟨fault, hResult, _⟩ | ⟨hOld, hResult⟩ | ⟨g, hSettles, _, hResult⟩
      · refine ⟨now, false, f, .unchanged _ nofun, ?_⟩
        simp only [after, hResult]
        exact .done f
      · refine ⟨now, false, _, .duplicate hOld, ?_⟩
        simp only [after, hResult]
        exact .done _
      · refine ⟨now, false, g, hSettles, ?_⟩
        simp only [after, hResult]
        exact departs_sendMany g now
  | timer timer now =>
      exact ⟨now, true, settles_afterTimers f (.timer timer now) nofun now _
        (f.controller.agrees_onTimer timer now)⟩
  | timeout now =>
      exact ⟨now, true, settles_afterTimers f (.timeout now) nofun now _
        (f.controller.agrees_onTimeout now)⟩
  | limit packets => exact ⟨0, false, _, .limited packets, .done _⟩
  | close => exact ⟨0, false, _, .timers .close nofun _ f.controller.agrees_close, .done _⟩
  | reset => exact ⟨0, false, _, .restarted, .done _⟩

theorem after_keeps (f : Flow α) {event : FlowEvent} (notReset : event ≠ .reset) :
    f.nextSeq ≤ (f.after event).2.nextSeq ∧ ((f.after event).2.acked = f.acked ∨
      ∃ p now, event = .ack p now ∧ (f.after event).2.acked = p.seq) := by
  obtain ⟨now, paced, g, hSettles, hDeparts⟩ := f.settles_after event
  have ⟨hNext, hAcked⟩ := hSettles.keeps notReset
  obtain ⟨hRises, hSame, _⟩ := hDeparts.keeps
  rw [hSame, ← hNext]
  exact ⟨hRises, hAcked⟩

/-- An acknowledgment of packets that left is never answered as an invalid packet. -/
theorem onAck_ne_invalidPacket {f : Flow α} {p : Packet} (hAck : p.isData = false)
    (wasSent : p.seq ≤ f.nextSeq) (now : Instant) : (f.onAck p now).1 ≠ .error .invalidPacket := by
  rcases f.onAck_cases p now with ⟨fault, hResult, hInvalid⟩ | ⟨_, hResult⟩ | ⟨g, _, _, hResult⟩
  · rw [hResult]
    rintro ⟨⟩
    rcases hInvalid rfl with hData | hUnsent
    · exact absurd (hData.symm.trans hAck) nofun
    · omega
  · rw [hResult]
    nofun
  · rw [hResult]
    nofun

end Flow
end LoadFeedback
