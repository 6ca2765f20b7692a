import LoadFeedback.Proofs.Receiver.Sink
import Mathlib.Algebra.BigOperators.Intervals

/-! What a receiver counts as delivered. When a packet closes the gap below packets that came earlier,
all of them are counted with the size of that one packet, so the count is right if all packets have
the same size, and wrong in general. -/
namespace LoadFeedback

/-- The data packets among some arrivals. -/
def dataPackets (arrivals : List (Packet × Instant)) : List Packet :=
  (arrivals.map Prod.fst).filter Packet.isData

@[simp] theorem dataPackets_cons_of_data {p : Packet} (hData : p.isData = true) (now : Instant)
    (rest : List (Packet × Instant)) : dataPackets ((p, now) :: rest) = p :: dataPackets rest := by
  simp [dataPackets, hData]

@[simp] theorem dataPackets_cons_of_ack {p : Packet} (hAck : p.isData = false) (now : Instant)
    (rest : List (Packet × Instant)) : dataPackets ((p, now) :: rest) = dataPackets rest := by
  simp [dataPackets, hAck]

/-- The size of the packet with whose arrival no number up to the given one is missing any more, when
some numbers have been received before. -/
def closingSize (received : List Nat) : List Packet → Nat → Nat
  | [], _ => 0
  | p :: rest, seq =>
    if ∀ s ≤ seq, s ∈ received ++ [p.seq] then p.size
    else closingSize (received ++ [p.seq]) rest seq

/-- The size of the first packet with the given number. -/
def firstSize (packets : List Packet) (seq : Nat) : Nat :=
  ((packets.find? (·.seq = seq)).map (·.size)).getD 0

/-- A number that has come has the size of one of the packets. -/
theorem exists_firstSize {packets : List Packet} {seq : Nat} (come : seq ∈ packets.map (·.seq)) :
    ∃ p ∈ packets, firstSize packets seq = p.size := by
  obtain ⟨p, hp, rfl⟩ := List.mem_map.mp come
  have hFound : (packets.find? (·.seq = p.seq)).isSome := List.find?_isSome.mpr ⟨p, hp, by simp⟩
  obtain ⟨q, hq⟩ := Option.isSome_iff_exists.mp hFound
  exact ⟨q, List.mem_of_find?_eq_some hq, by rw [firstSize, hq]; rfl⟩

/-- Where all numbers have come and not all of them before, one of the packets has closed the gap. -/
theorem exists_closingSize {received : List Nat} {packets : List Packet} {seq : Nat}
    (missing : ¬∀ s ≤ seq, s ∈ received)
    (come : ∀ s ≤ seq, s ∈ received ++ packets.map (·.seq)) :
    ∃ p ∈ packets, closingSize received packets seq = p.size := by
  induction packets generalizing received with
  | nil => exact absurd (by simpa using come) missing
  | cons p rest ih =>
      by_cases hClosed : ∀ s ≤ seq, s ∈ received ++ [p.seq]
      · exact ⟨p, List.mem_cons_self, if_pos hClosed⟩
      · obtain ⟨q, hq, hSize⟩ := ih hClosed (by simpa using come)
        exact ⟨q, List.mem_cons_of_mem p hq, (if_neg hClosed).trans hSize⟩

namespace Sink

/-- The receiver after some packets, each with the instant of its arrival. -/
def feed (s : Sink) (arrivals : List (Packet × Instant)) : Sink :=
  arrivals.foldl (fun s arrival => (s.onData arrival.1 arrival.2).2) s

theorem feed_cons_of_ack {s : Sink} {p : Packet} (hAck : p.isData = false) (now : Instant)
    (rest : List (Packet × Instant)) : s.feed ((p, now) :: rest) = s.feed rest := by
  simp [feed, onData, hAck]

/-- A receiver in its first incarnation that holds the given numbers. -/
structure Gathers (s : Sink) (received : List Nat) : Prop where
  first : s.lastReset = none
  holds : s.acknowledger.assembly.Holds received

namespace Gathers

variable {s : Sink} {received : List Nat}

theorem take (h : s.Gathers received) (p : Packet) : (s.take p).Gathers (received ++ [p.seq]) :=
  ⟨h.first, h.holds.record p.seq⟩

theorem feed_cons_of_data (h : s.Gathers received) {p : Packet} (hData : p.isData = true)
    (now : Instant) (rest : List (Packet × Instant)) :
    s.feed ((p, now) :: rest) = (s.take p).feed rest := by
  simp [feed, onData_of_data hData (by rw [isStale, h.first])]

theorem feed (h : s.Gathers received) (arrivals : List (Packet × Instant)) :
    (s.feed arrivals).Gathers (received ++ (dataPackets arrivals).map (·.seq)) := by
  induction arrivals generalizing s received with
  | nil => simpa [Sink.feed, dataPackets] using h
  | cons arrival rest ih =>
      obtain ⟨p, now⟩ := arrival
      cases hData : p.isData with
      | false =>
          rw [feed_cons_of_ack hData, dataPackets_cons_of_ack hData]
          exact ih h
      | true =>
          rw [h.feed_cons_of_data hData, dataPackets_cons_of_data hData, List.map_cons,
            List.append_cons]
          exact ih (h.take p)

theorem byteCount_take (s : Sink) (p : Packet) : (s.take p).tally.byteCount = s.tally.byteCount +
    (((s.take p).cumulative - s.cumulative) * p.size).toUInt64 := rfl

theorem cumulative_le_take (h : s.Gathers received) (p : Packet) :
    s.cumulative ≤ (s.take p).cumulative :=
  h.holds.missing_mono (h.take p).holds

/-- A packet closes all gaps below the cumulative number after it, and no other. -/
theorem closes_iff (h : s.Gathers received) (p : Packet) {seq : Nat} :
    (∀ t ≤ seq, t ∈ received ++ [p.seq]) ↔ seq < (s.take p).cumulative := by
  have hTaken := (h.take p).holds
  constructor
  · intro hAll
    refine Nat.lt_of_not_le fun hLe => ?_
    exact hTaken.missing_notMem (hAll _ hLe)
  · intro hLt t ht
    exact hTaken.below t (Nat.lt_of_le_of_lt ht hLt)

/-- Every number that comes into order is counted with the size of the packet that closed the last gap
below it. The induction is on the arrivals: each closes the gaps from the cumulative number before it
to the one after it, and leaves the rest to later ones. -/
theorem byteCount_feed (h : s.Gathers received) (arrivals : List (Packet × Instant)) :
    s.cumulative ≤ (s.feed arrivals).cumulative ∧
    (s.feed arrivals).tally.byteCount = s.tally.byteCount +
      (∑ seq ∈ Finset.Ico s.cumulative (s.feed arrivals).cumulative,
        closingSize received (dataPackets arrivals) seq).toUInt64 := by
  induction arrivals generalizing s received with
  | nil => simp [Sink.feed]
  | cons arrival rest ih =>
      obtain ⟨p, now⟩ := arrival
      cases hData : p.isData with
      | false =>
          rw [feed_cons_of_ack hData, dataPackets_cons_of_ack hData]
          exact ih h
      | true =>
          rw [h.feed_cons_of_data hData, dataPackets_cons_of_data hData]
          obtain ⟨hLater, hBytes⟩ := ih (h.take p)
          have hFirst := h.cumulative_le_take p
          refine ⟨hFirst.trans hLater, ?_⟩
          have hClosed : ∀ seq ∈ Finset.Ico s.cumulative (s.take p).cumulative,
              closingSize received (p :: dataPackets rest) seq = p.size := fun seq hSeq =>
            if_pos ((h.closes_iff p).mpr (Finset.mem_Ico.mp hSeq).2)
          have hOpen : ∀ seq ∈ Finset.Ico (s.take p).cumulative ((s.take p).feed rest).cumulative,
              closingSize received (p :: dataPackets rest) seq =
                closingSize (received ++ [p.seq]) (dataPackets rest) seq := fun seq hSeq =>
            if_neg fun hAll => Nat.not_lt_of_le (Finset.mem_Ico.mp hSeq).1 ((h.closes_iff p).mp hAll)
          rw [hBytes, ← Finset.sum_Ico_consecutive _ hFirst hLater, Finset.sum_const_nat hClosed,
            Finset.sum_congr rfl hOpen, Nat.card_Ico, byteCount_take, UInt64.add_assoc]
          exact congrArg (s.tally.byteCount + ·) (UInt64.ofNat_add _ _).symm

end Gathers

/-- Of all packets that come to a new receiver, it counts every number in order once, with the size of
the packet that closed the last gap below it, less what a word cannot hold. If the packets have one size,
these are the bytes of the first copies. -/
theorem bytes_of_closing_packets (ackSize : Nat) (arrivals : List (Packet × Instant)) :
    let s := (start ackSize).feed arrivals
    let packets := dataPackets arrivals
    s.tally.bytes = (∑ seq ∈ Finset.range s.cumulative, closingSize [] packets seq) % UInt64.size ∧
    (∑ seq ∈ Finset.range s.cumulative, closingSize [] packets seq < UInt64.size →
      s.tally.bytes = ∑ seq ∈ Finset.range s.cumulative, closingSize [] packets seq) ∧
    ∀ size, (∀ p ∈ packets, p.size = size) →
      s.tally.bytes = (∑ seq ∈ Finset.range s.cumulative, firstSize packets seq) % UInt64.size := by
  intro s packets
  have hStart : (start ackSize).Gathers [] := ⟨rfl, Assembly.holds_empty⟩
  have hBytes : s.tally.bytes =
      (∑ seq ∈ Finset.range s.cumulative, closingSize [] packets seq) % UInt64.size := by
    rw [SinkTally.bytes, (hStart.byteCount_feed arrivals).2, Finset.range_eq_Ico]
    exact congrArg UInt64.toNat (UInt64.zero_add _)
  refine ⟨hBytes, fun hWord => hBytes.trans (Nat.mod_eq_of_lt hWord),
    fun size hSize => hBytes.trans (congrArg (· % UInt64.size) ?_)⟩
  refine Finset.sum_congr rfl fun seq hSeq => ?_
  have hBelow := (hStart.feed arrivals).holds.below
  have hCome : ∀ t ≤ seq, t ∈ packets.map (·.seq) := fun t ht => by
    simpa using hBelow t (Nat.lt_of_le_of_lt ht (Finset.mem_range.mp hSeq))
  have hMissing : ¬∀ t ≤ seq, t ∈ ([] : List Nat) := fun hAll =>
    List.not_mem_nil (hAll seq (Nat.le_refl seq))
  obtain ⟨p, hp, hClosing⟩ := exists_closingSize hMissing hCome
  obtain ⟨q, hq, hFirst⟩ := exists_firstSize (hCome seq (Nat.le_refl seq))
  rw [hClosing, hFirst, hSize p hp, hSize q hq]

/-- Packets of one size, the second one late and two of them twice. -/
theorem bytes_of_equal_packets :
    let packets := [0, 2, 1, 1, 2].map (Packet.data 1 · 1000 0)
    let s := (start 40).feed (packets.map (·, 0))
    (∀ p ∈ packets, p.size = 1000) ∧ s.cumulative = 3 ∧ s.tally.bytes = 3000 ∧
      s.tally.bytes = (∑ seq ∈ Finset.range s.cumulative, firstSize packets seq) % UInt64.size := by
  intro packets s
  have hSize : ∀ p ∈ packets, p.size = 1000 := by decide
  exact ⟨hSize, by decide, by decide,
    (bytes_of_closing_packets 40 (packets.map (·, 0))).2.2 1000 hSize⟩

/-- A large packet closes the gap below a small one, which is then counted as a large one as well. -/
theorem small_packet_counted_as_large :
    let packets := [Packet.data 1 1 100 0, Packet.data 1 0 1000 0]
    let s := (start 40).feed (packets.map (·, 0))
    s.cumulative = 2 ∧ s.tally.bytes = 2000 ∧
      ∑ seq ∈ Finset.range s.cumulative, firstSize packets seq = 1100 := by
  decide

end Sink
end LoadFeedback
