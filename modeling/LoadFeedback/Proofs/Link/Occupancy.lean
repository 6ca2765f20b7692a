import LoadFeedback.Proofs.Link.Departures

/-! What a drop-tail queue counts: the packets that it holds, and those that it refused. -/
namespace LoadFeedback

namespace DropTail

variable {q rest : DropTail} {p : Packet}

/-- The queue counts the packets that it holds. -/
def Sized (q : DropTail) : Prop := q.size = q.toList.length

/-- A packet is taken to the end of the queue, or refused and counted as dropped. -/
theorem enqueue_cases (q : DropTail) (p : Packet) :
    ((q.enqueue p).1 = true ∧ (q.enqueue p).2.toList = q.toList ++ [p] ∧
      (q.enqueue p).2.drops = q.drops) ∨
    ((q.enqueue p).1 = false ∧ (q.enqueue p).2.toList = q.toList ∧
      (q.enqueue p).2.drops = q.drops + 1) := by
  unfold enqueue
  split
  · exact Or.inr ⟨rfl, rfl, rfl⟩
  · exact Or.inl ⟨rfl, by simp [toList], rfl⟩

theorem Sized.enqueue (h : q.Sized) (p : Packet) : (q.enqueue p).2.Sized := by
  unfold DropTail.enqueue
  split
  · exact h
  · have hSize := congrArg (· + 1) h
    simpa [Sized, toList, Nat.add_assoc] using hSize

/-- The head leaves, and nothing else is taken out. -/
theorem dequeue?_eq_some (h : q.dequeue? = some (p, rest)) :
    q.toList = p :: rest.toList ∧ rest.size = q.size - 1 ∧ rest.drops = q.drops ∧
      rest.byteCount = q.byteCount - p.size.toUInt64 := by
  have hHead : PacketQueue.dequeue? q = some (p, rest) := h
  have hList : FifoQueue.toList q = p :: FifoQueue.toList rest := FifoQueue.toList_of_dequeue? hHead
  unfold dequeue? at h
  split at h
  · cases h
    exact ⟨hList, rfl, rfl, rfl⟩
  · split at h
    · cases h
      exact ⟨hList, rfl, rfl, rfl⟩
    · cases h

theorem Sized.dequeue? (h : q.Sized) (head : q.dequeue? = some (p, rest)) : rest.Sized := by
  obtain ⟨hList, hSize, _⟩ := dequeue?_eq_some head
  rw [Sized, hSize, h, hList]
  rfl

theorem toList_eq_nil_of_dequeue? (h : q.dequeue? = none) : q.toList = [] := by
  have hList := toList_dequeue? q
  rw [h, Option.map_none] at hList
  split at hList
  · next hEmpty => exact List.isEmpty_iff.mp hEmpty
  · cases hList

end DropTail

namespace MeteredQueue

variable {α : Type} {l rest : LinkQueue α} {p : Packet}

theorem queue_of_dequeue? (h : l.dequeue? = some (p, rest)) :
    ∃ head, l.queue.dequeue? = some (head, rest.queue) ∧ p = l.meter.stamp head := by
  obtain ⟨⟨head, queue⟩, hHead, hResult⟩ := Option.map_eq_some_iff.mp h
  cases hResult
  exact ⟨head, hHead, rfl⟩

theorem queue_of_dequeue?_eq_none (h : l.dequeue? = none) : l.queue.dequeue? = none :=
  Option.map_eq_none_iff.mp h

end MeteredQueue
end LoadFeedback
