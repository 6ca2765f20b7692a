import LoadFeedback.Proofs.Flow.SequenceSpace
import LoadFeedback.Proofs.Network.Exchange

/-! A sender never counts a packet as acknowledged that the receiver has not taken, and a receiver
never counts a packet that the sender has not sent, whatever the network does between them. -/
namespace LoadFeedback

variable {α : Type}

namespace Exchange

/-- The two ends agree. Only numbers that were sent have arrived, so the first missing one is at most
the next one to send; acknowledgments under way never run ahead of the receiver. -/
structure Agreed (x : Exchange α) : Prop where
  accounted : x.flow.Accounted x.sent
  first : x.sink.lastReset = none
  holds : x.sink.acknowledger.assembly.Holds (x.taken.map (·.seq))
  taken_sent : ∀ p ∈ x.taken, p.seq < x.flow.nextSeq
  acked_le : x.flow.acked ≤ x.sink.cumulative
  acks_le : ∀ ack ∈ x.acks, ack.isData = false ∧ ack.seq ≤ x.sink.cumulative

namespace Agreed

variable {x : Exchange α}

theorem cumulative_le (h : x.Agreed) : x.sink.cumulative ≤ x.flow.nextSeq := by
  refine h.holds.missing_le fun hMem => ?_
  obtain ⟨p, hp, hSeq⟩ := List.mem_map.mp hMem
  have hLt := h.taken_sent p hp
  omega

theorem of_sent (h : x.Agreed) {p : Packet} (hp : p ∈ x.sent) :
    p.isData = true ∧ p.seq < x.flow.nextSeq := by
  have hRange := List.mem_map_of_mem (f := (·.seq)) hp
  rw [h.accounted.numbered, List.mem_range] at hRange
  exact ⟨by simp [Packet.isData, (h.accounted.initial p hp).1], hRange⟩

/-- The receiver answers with the number that is missing once the packet has arrived. -/
theorem arrive (h : x.Agreed) {p : Packet} (hp : p ∈ x.sent) (feedback : FeedbackField)
    (now : Instant) : (x.arrive (p.withFeedback feedback) now).Agreed := by
  have hData : (p.withFeedback feedback).isData = true := (h.of_sent hp).1
  have hStale : x.sink.isStale (p.withFeedback feedback) = false := by
    rw [Sink.isStale, h.first]
  have hHolds := h.holds.record p.seq
  have hRises : x.sink.cumulative ≤ (x.sink.take (p.withFeedback feedback)).cumulative :=
    h.holds.missing_mono hHolds
  rw [arrive_of_data x hData hStale now]
  constructor
  case accounted => exact h.accounted
  case first => exact h.first
  case holds =>
    rw [List.map_append]
    exact hHolds
  case taken_sent =>
    intro q hq
    rcases List.mem_append.mp hq with hq | hq
    · exact h.taken_sent q hq
    · rw [List.mem_singleton.mp hq]
      exact (h.of_sent hp).2
  case acked_le => exact Nat.le_trans h.acked_le hRises
  case acks_le =>
    intro ack hMem
    rcases List.mem_append.mp hMem with hOld | hNew
    · exact ⟨(h.acks_le ack hOld).1, Nat.le_trans (h.acks_le ack hOld).2 hRises⟩
    · rw [List.mem_singleton.mp hNew]
      exact ⟨rfl, Nat.le_refl _⟩

variable [PowerScalar α]

/-- The sender takes no more than the acknowledgment says. -/
theorem call (h : x.Agreed) {event : FlowEvent} (notReset : event ≠ .reset)
    (hAck : ∀ p now, event = .ack p now → p ∈ x.acks) : (x.call event).Agreed := by
  have ⟨hNext, hAcked⟩ := x.flow.after_keeps notReset
  have hAccounted := h.accounted.after event
  rw [event.kept_of_ne notReset] at hAccounted
  refine
    { h with
      accounted := hAccounted
      taken_sent := fun p hp => Nat.lt_of_lt_of_le (h.taken_sent p hp) hNext
      acked_le := ?_ }
  rcases hAcked with hSame | ⟨p, now, hEvent, hSeq⟩
  · exact Nat.le_trans (Nat.le_of_eq hSame) h.acked_le
  · exact Nat.le_trans (Nat.le_of_eq hSeq) (h.acks_le p (hAck p now hEvent)).2

theorem run (h : x.Agreed) (events : List ExchangeEvent) : (x.run events).Agreed :=
  run_keeps (P := Agreed) (fun _ _ notReset hAck h => h.call notReset hAck)
    (fun _ _ hp feedback now h => h.arrive hp feedback now) events x h

end Agreed

theorem agreed_start {flow : Flow α} (fresh : flow.Accounted []) (ackSize : Nat) :
    (start flow ackSize).Agreed where
  accounted := fresh
  first := rfl
  holds := Assembly.holds_empty
  taken_sent := List.forall_mem_nil _
  acked_le := Nat.le_of_eq fresh.acked_eq_zero
  acks_le := List.forall_mem_nil _

/-- Whatever the network does, the acknowledged count is at most the receiver's, and the receiver's
at most the number of packets sent. So no acknowledgment of the receiver runs ahead of it, every
packet that counts as acknowledged was taken, and the sender refuses no acknowledgment as one for
packets that never left. -/
theorem acked_le_cumulative_le_sent [PowerScalar α] {id : Nat} {config : SenderConfig α}
    {tables : WindowTables α} {flow : Flow α} (built : Flow.build id config tables = .ok flow)
    (ackSize : Nat) (events : List ExchangeEvent) :
    let x := (start flow ackSize).run events
    x.flow.acked ≤ x.sink.cumulative ∧ x.sink.cumulative ≤ x.flow.nextSeq ∧
      (∀ ack ∈ x.acks, ack.seq ≤ x.sink.cumulative) ∧
      (∀ s < x.flow.acked, ∃ p ∈ x.taken, p.seq = s) ∧
      ∀ ack ∈ x.acks, ∀ now, (x.flow.onAck ack now).1 ≠ .error .invalidPacket := by
  intro x
  have h : x.Agreed := (agreed_start (Flow.accounted_of_build built) ackSize).run events
  refine ⟨h.acked_le, h.cumulative_le, fun ack hAck => (h.acks_le ack hAck).2, ?_, ?_⟩
  · intro s hs
    exact List.mem_map.mp (h.holds.below s (Nat.lt_of_lt_of_le hs h.acked_le))
  · intro ack hAck now
    have ⟨hKind, hLe⟩ := h.acks_le ack hAck
    exact Flow.onAck_ne_invalidPacket hKind (Nat.le_trans hLe h.cumulative_le) now

/-- Two packets arrive in the other order, the first one twice. Both count as acknowledged once the
acknowledgment of both has arrived, which the earlier one no longer changes. -/
theorem agreement_of_reordered :
    let flow : Flow Float := .withController 1 1000 (.start .standard .standard)
    let arrivals := [.send 0, .data 1 (.ofCode .high) 40, .data 0 (.ofCode .over) 50,
      .data 0 .initial 60, .ack 1 80, .ack 0 90]
    let x := (start flow 40).run arrivals
    Flow.build 1 .standard .standard = .ok flow ∧ x.acks.map (·.seq) = [0, 2, 2] ∧
      x.flow.acked = 2 ∧ x.sink.cumulative = 2 ∧
      (∀ s < x.flow.acked, ∃ p ∈ x.taken, p.seq = s) ∧
      ∀ ack ∈ x.acks, ∀ now, (x.flow.onAck ack now).1 ≠ .error .invalidPacket := by
  intro flow arrivals
  have hBuilt : Flow.build 1 .standard .standard = .ok flow := rfl
  obtain ⟨_, _, _, hTaken, hValid⟩ := acked_le_cumulative_le_sent hBuilt 40 arrivals
  exact ⟨hBuilt, by decide +kernel, by decide +kernel, by decide +kernel, hTaken, hValid⟩

end Exchange
end LoadFeedback
