import LoadFeedback.Proofs.Receiver.Assembly
import LoadFeedback.Receiver.Sink

/-! What a receiver does with one packet. Of the packets that come to it, it takes exactly the data
packets of its present incarnation, and answers each of them. -/
namespace LoadFeedback.Sink

/-- The receiver with one more packet taken. -/
def take (s : Sink) (p : Packet) : Sink :=
  let acknowledger := { s.acknowledger with assembly := s.acknowledger.assembly.record p.seq }
  { s with
    acknowledger := acknowledger
    tally := s.tally.count ((acknowledger.cumulative - s.cumulative) * p.size) }

/-- The answer to a packet that was taken. -/
def answer (s : Sink) (p : Packet) (now : Instant) : Packet :=
  (Packet.ack p.flow (s.take p).cumulative s.acknowledger.ackSize now p.sentAt).withFeedback
    p.feedback

/-- A packet is invalid, or of an earlier incarnation, or taken and answered. -/
theorem onData_cases (s : Sink) (p : Packet) (now : Instant) :
    (p.isData = false ∧ s.onData p now = (.error .invalidPacket, s)) ∨
    (p.isData = true ∧ s.isStale p = true ∧ s.onData p now =
      (.ok none, { s with tally := { s.tally with discarded := s.tally.discarded + 1 } })) ∨
    (p.isData = true ∧ s.isStale p = false ∧
      s.onData p now = (.ok (some (s.answer p now)), s.take p)) := by
  cases hData : p.isData with
  | false => exact Or.inl ⟨rfl, by simp [onData, hData]⟩
  | true =>
      cases hStale : s.isStale p with
      | true => exact Or.inr (Or.inl ⟨rfl, rfl, by simp [onData, hData, hStale]⟩)
      | false =>
          refine Or.inr (Or.inr ⟨rfl, rfl, ?_⟩)
          simp [onData, hData, hStale, Acknowledger.onData, answer, take, cumulative]

theorem onData_of_data {s : Sink} {p : Packet} (hData : p.isData = true)
    (hStale : s.isStale p = false) (now : Instant) :
    s.onData p now = (.ok (some (s.answer p now)), s.take p) := by
  rcases s.onData_cases p now with ⟨hAck, _⟩ | ⟨_, hOld, _⟩ | ⟨_, _, hResult⟩
  · exact absurd (hData.symm.trans hAck) nofun
  · exact absurd (hOld.symm.trans hStale) nofun
  · exact hResult

/-- Every answer echoes the feedback of its packet. -/
theorem feedback_of_onData {s : Sink} {p ack : Packet} {now : Instant}
    (h : (s.onData p now).1 = .ok (some ack)) : ack.feedback = p.feedback := by
  rcases s.onData_cases p now with ⟨_, hResult⟩ | ⟨_, _, hResult⟩ | ⟨_, _, hResult⟩
  all_goals
    rw [hResult] at h
    cases h
  rfl

/-- A receiver in its first incarnation, to which only numbers below a count have come. -/
structure Receives (s : Sink) (count : Nat) : Prop where
  first : s.lastReset = none
  holds : ∃ received, s.acknowledger.assembly.Holds received ∧ ∀ seq ∈ received, seq < count

theorem receives_start (ackSize count : Nat) : (start ackSize).Receives count :=
  ⟨rfl, [], Assembly.holds_empty, List.forall_mem_nil _⟩

namespace Receives

variable {s : Sink} {count : Nat}

theorem mono (h : s.Receives count) {more : Nat} (hLe : count ≤ more) : s.Receives more := by
  obtain ⟨received, hHolds, hBelow⟩ := h.holds
  exact ⟨h.first, received, hHolds, fun seq hSeq => Nat.lt_of_lt_of_le (hBelow seq hSeq) hLe⟩

/-- The count itself has not arrived, so nothing beyond it is acknowledged. -/
theorem cumulative_le (h : s.Receives count) : s.cumulative ≤ count := by
  obtain ⟨received, hHolds, hBelow⟩ := h.holds
  exact hHolds.missing_le fun hCount => Nat.lt_irrefl count (hBelow count hCount)

theorem take (h : s.Receives count) {p : Packet} (hSeq : p.seq < count) :
    (s.take p).Receives count := by
  obtain ⟨received, hHolds, hBelow⟩ := h.holds
  refine ⟨h.first, received ++ [p.seq], hHolds.record p.seq, fun seq hMem => ?_⟩
  rcases List.mem_append.mp hMem with hOld | hNew
  · exact hBelow seq hOld
  · exact List.mem_singleton.mp hNew ▸ hSeq

theorem onData (h : s.Receives count) {p : Packet} (hData : p.isData = true) (now : Instant) :
    s.onData p now = (.ok (some (s.answer p now)), s.take p) :=
  onData_of_data hData (by rw [isStale, h.first]) now

end Receives
end LoadFeedback.Sink
