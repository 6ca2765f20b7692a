import LoadFeedback.Proofs.Flow.Acknowledgment
import LoadFeedback.Proofs.Sender.Deadlines

/-! What a network may rely on when it calls a flow: the packets belong to the flow and carry numbers
that it has counted, its window keeps its law, and its timers are armed for later instants only. -/
namespace LoadFeedback.Flow

variable {α : Type}

/-- What a call at an instant makes of a flow, beside the packets that leave. -/
structure Continues (now : Instant) (f : Flow α) (packets : List Packet) (g : Flow α) : Prop where
  id_eq : g.id = f.id
  nextSeq_le : f.nextSeq ≤ g.nextSeq
  sent : ∀ p ∈ packets,
    p.flow = f.id ∧ p.isData = true ∧ p.feedback = .initial ∧ p.seq < g.nextSeq
  controller : f.controller.Continues now g.controller

namespace Continues

variable {now : Instant} {f g h : Flow α} {packets : List Packet}

/-- Bookkeeping that leaves the numbers alone, before packets leave. -/
theorem after (k : g.Continues now packets h) (hId : g.id = f.id) (hSeq : g.nextSeq = f.nextSeq)
    (hController : f.controller.Continues now g.controller) : f.Continues now packets h where
  id_eq := k.id_eq.trans hId
  nextSeq_le := hSeq ▸ k.nextSeq_le
  sent := hId ▸ k.sent
  controller := hController.trans k.controller

theorem of_quiet (hId : g.id = f.id) (hSeq : g.nextSeq = f.nextSeq)
    (hController : f.controller.Continues now g.controller) : f.Continues now [] g :=
  ⟨hId, Nat.le_of_eq hSeq.symm, List.forall_mem_nil _, hController⟩

end Continues

section

variable [Scalar α]

theorem Departs.continues {f g : Flow α} {now : Instant} {paced : Bool} {packets : List Packet}
    (run : Departs now paced f packets g) : f.Continues now packets g := by
  induction run with
  | done f => exact .of_quiet rfl rfl (.refl now _)
  | armed f => exact .of_quiet rfl rfl (f.controller.continues_pace now)
  | @next f g packets may rest ih =>
      have hFirst : (f.sendOne now paced).1.seq < g.nextSeq := ih.nextSeq_le
      exact
        { id_eq := ih.id_eq
          nextSeq_le := Nat.le_of_succ_le ih.nextSeq_le
          sent := List.forall_mem_cons.mpr ⟨⟨rfl, rfl, rfl, hFirst⟩, ih.sent⟩
          controller := (f.controller.continues_sent paced now).trans ih.controller }

theorem continues_sendMany (f : Flow α) (now : Instant) :
    f.Continues now (f.sendMany now).1 (f.sendMany now).2 :=
  (departs_sendMany f now).continues

theorem continues_onTimer {f g : Flow α} {timer : Timer} {now : Instant} {packets : List Packet}
    (h : f.onTimer timer now = (.ok packets, g)) : f.Continues now packets g := by
  have hWindow := f.controller.continues_onTimer timer now
  unfold onTimer at h
  cases hResult : f.controller.onTimer timer now with
  | mk outcome controller =>
      rw [hResult] at h hWindow
      cases outcome with
      | error fault => cases h
      | ok released =>
          cases h
          exact (departs_release _ released now).continues.after rfl rfl hWindow

theorem deadline?_release (f : Flow α) (released : Bool) (now : Instant) (timer : Timer) :
    (f.release released now).2.deadline? timer = f.deadline? timer := by
  unfold release
  split
  · exact f.controller.deadline?_sent true timer
  · rfl

theorem deadline?_onTimer {f g : Flow α} {timer : Timer} {now : Instant} {packets : List Packet}
    (h : f.onTimer timer now = (.ok packets, g)) : g.deadline? timer = none := by
  have hDisarmed := f.controller.deadline?_onTimer timer now
  unfold onTimer at h
  cases hResult : f.controller.onTimer timer now with
  | mk outcome controller =>
      rw [hResult] at h hDisarmed
      cases outcome with
      | error fault => cases h
      | ok released =>
          cases h
          exact (deadline?_release _ released now timer).trans hDisarmed

/-- A timer that the window expects is taken. -/
theorem onTimer_of_expects {f : Flow α} {timer : Timer} (h : f.controller.Expects timer)
    (now : Instant) : ∃ packets g, f.onTimer timer now = (.ok packets, g) := by
  obtain ⟨released, hTaken⟩ := Controller.onTimer_of_expects h now
  have hResult : f.controller.onTimer timer now =
      (.ok released, (f.controller.onTimer timer now).2) := Prod.ext hTaken rfl
  exact ⟨_, _, by rw [onTimer, hResult, afterTimers]⟩

end

variable [PowerScalar α]

theorem book_keeps (f : Flow α) (ack : Packet) (now : Instant) :
    (f.book ack now).id = f.id ∧ (f.book ack now).nextSeq = f.nextSeq ∧
      f.controller.Continues now (f.book ack now).controller := by
  unfold book learn
  split
  · exact ⟨rfl, rfl, .refl now _⟩
  · exact ⟨rfl, rfl, f.controller.continues_measured _ now⟩

theorem continues_onAck {f g : Flow α} {p : Packet} {now : Instant} {packets : List Packet}
    (h : f.onAck p now = (.ok packets, g)) : f.Continues now packets g := by
  have hTaken : ¬f.Refuses p := fun hRefused => by
    obtain ⟨fault, hResult⟩ := onAck_of_refuses hRefused now
    rw [hResult] at h
    cases h
  obtain ⟨hAck, hSent, hOld | ⟨hNew, hCheck⟩⟩ := cases_of_not_refuses hTaken
  · rw [onAck_of_seq_le_acked hAck hSent hOld now] at h
    cases h
    exact .of_quiet rfl rfl (.refl now _)
  · obtain ⟨window, hWindow, hAccept⟩ := accept_eq_of_check now hCheck
    obtain ⟨hId, hSeq, hBook⟩ := f.book_keeps p now
    have hStep := (f.book p now).controller.continues_onAck p now
    rw [hWindow] at hStep
    rw [onAck_eq_accept hNew hSent hCheck now, hAccept] at h
    cases h
    exact (continues_sendMany _ now).after hId hSeq (hBook.trans hStep)

theorem onAck_of_not_refuses {f : Flow α} {p : Packet} (h : ¬f.Refuses p) (now : Instant) :
    ∃ packets g, f.onAck p now = (.ok packets, g) := by
  cases hResult : f.onAck p now with
  | mk outcome g =>
      cases outcome with
      | ok packets => exact ⟨packets, g, rfl⟩
      | error fault => exact absurd ((f.refuses_iff p now).mp ⟨fault, by rw [hResult]⟩) h

end LoadFeedback.Flow
