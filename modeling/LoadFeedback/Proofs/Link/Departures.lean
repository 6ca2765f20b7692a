import LoadFeedback.Proofs.Link.Event

/-! A link with a log of what went in and what came out. Its queue may refuse packets, but hands out
those that it took in their order, so the packet that departs at some place in the log is the one
that was taken at this place, with the stamp of its departure. -/
namespace LoadFeedback

/-- A queue that hands out its packets in the order in which it took them. -/
class FifoQueue (κ : Type) extends PacketQueue κ where
  /-- The queued packets, the first one first. -/
  toList : κ → List Packet
  toList_enqueue (q : κ) (p : Packet) :
    toList (enqueue q p).2 = if (enqueue q p).1 then toList q ++ [p] else toList q
  toList_dequeue? (q : κ) :
    (dequeue? q).map (fun r => r.1 :: toList r.2) =
      if (toList q).isEmpty then none else some (toList q)

instance : FifoQueue DropTail where
  toList := DropTail.toList
  toList_enqueue q p := by
    have h := DropTail.toList_enqueue q p
    by_cases hFull : q.limit ≤ q.size <;> simpa [PacketQueue.enqueue, DropTail.enqueue, hFull] using h
  toList_dequeue? := DropTail.toList_dequeue?

variable {κ α : Type}

namespace FifoQueue

variable [FifoQueue κ] {q rest : κ} {p : Packet}

theorem mem_enqueue {added : Packet} (h : p ∈ toList (PacketQueue.enqueue q added).2) :
    p ∈ toList q ∨ p = added := by
  rw [toList_enqueue] at h
  split at h
  · exact (List.mem_append.mp h).imp_right List.mem_singleton.mp
  · exact Or.inl h

theorem toList_of_dequeue? (h : PacketQueue.dequeue? q = some (p, rest)) :
    toList q = p :: toList rest := by
  have hQueue := toList_dequeue? q
  rw [h, Option.map_some] at hQueue
  split at hQueue
  · cases hQueue
  · exact (Option.some.inj hQueue).symm

end FifoQueue

/-- A link hands out the head of its queue, with its stamp. -/
theorem MeteredQueue.dequeue?_eq_some [FifoQueue κ] {l rest : MeteredQueue κ α} {p : Packet}
    (h : l.dequeue? = some (p, rest)) :
    ∃ head, FifoQueue.toList l.queue = head :: FifoQueue.toList rest.queue ∧
      p = l.meter.stamp head := by
  obtain ⟨⟨head, queue⟩, hHead, hResult⟩ := Option.map_eq_some_iff.mp h
  cases hResult
  exact ⟨head, FifoQueue.toList_of_dequeue? hHead, rfl⟩

/-- An entry of a list with one more is an old one, or the new one. -/
theorem getElem?_concat_cases {β : Type} {xs : List β} {x y : β} {i : Nat}
    (h : (xs ++ [x])[i]? = some y) : xs[i]? = some y ∨ (i = xs.length ∧ y = x) := by
  rcases Nat.lt_or_ge i xs.length with hOld | hNew
  · rw [List.getElem?_append_left hOld] at h
    exact Or.inl h
  · rw [List.getElem?_append_right hNew, List.getElem?_singleton] at h
    split at h
    · exact Or.inr ⟨by omega, (Option.some.inj h).symm⟩
    · cases h

/-- A link, what its queue took, and what left it. -/
structure Hop (κ α : Type) where
  link : MeteredQueue κ α
  /-- The packets that the queue took, as they came. -/
  taken : List Packet
  /-- The packets that left, each after what the link published at that moment. -/
  left : List (FeedbackField × Packet)

namespace Hop

variable [FifoQueue κ]

/-- Packets that wait at the start count as taken. -/
def start (l : MeteredQueue κ α) : Hop κ α := ⟨l, FifoQueue.toList l.queue, []⟩

variable [Scalar α]

def after (h : Hop κ α) : LinkEvent α → Hop κ α
  | .enqueue p =>
    match h.link.enqueue p with
    | (true, link) => { h with link := link, taken := h.taken ++ [p] }
    | (false, link) => { h with link := link }
  | .dequeue =>
    match h.link.dequeue? with
    | some (p, link) =>
      { h with link := link, left := h.left ++ [(h.link.meter.reading.feedback, p)] }
    | none => h
  | event => { h with link := h.link.after event }

theorem link_after (h : Hop κ α) (event : LinkEvent α) :
    (h.after event).link = h.link.after event := by
  cases event with
  | enqueue p =>
      simp only [after, MeteredQueue.after]
      split <;> simp_all
  | dequeue =>
      simp only [after, MeteredQueue.after]
      cases h.link.dequeue? <;> rfl
  | arrival | sample | measure | capacity | timer | timeout | reset | close => rfl

omit [Scalar α] in
/-- What has not left is still queued, and what has left differs from what was taken by its stamp. -/
structure InOrder (h : Hop κ α) : Prop where
  length_le : h.left.length ≤ h.taken.length
  queued : h.taken.drop h.left.length = FifoQueue.toList h.link.queue
  stamped : ∀ (place : Nat) (f : FeedbackField) (q : Packet), h.left[place]? = some (f, q) →
    ∃ p, h.taken[place]? = some p ∧ q = p.stamped f

omit [Scalar α] in
theorem inOrder_start (l : MeteredQueue κ α) : (start l).InOrder :=
  ⟨Nat.zero_le _, rfl, fun place f q hLeft => by simp [start] at hLeft⟩

namespace InOrder

variable {h : Hop κ α}

omit [Scalar α] in
theorem of_toList_eq (k : h.InOrder) {l : MeteredQueue κ α}
    (hQueue : FifoQueue.toList l.queue = FifoQueue.toList h.link.queue) :
    InOrder { h with link := l } :=
  { k with queued := k.queued.trans hQueue.symm }

omit [Scalar α] in
/-- A packet that is taken waits behind all others. -/
theorem append (k : h.InOrder) {l : MeteredQueue κ α} {p : Packet}
    (hQueue : FifoQueue.toList l.queue = FifoQueue.toList h.link.queue ++ [p]) :
    InOrder { h with link := l, taken := h.taken ++ [p] } := by
  constructor
  case length_le => simpa using Nat.le_succ_of_le k.length_le
  case queued =>
    rw [List.drop_append_of_le_length k.length_le, k.queued]
    exact hQueue.symm
  case stamped =>
    intro place f q hLeft
    obtain ⟨r, hTaken, hStamp⟩ := k.stamped place f q hLeft
    have hPlace := (List.getElem?_eq_some_iff.mp hTaken).1
    exact ⟨r, by simpa [List.getElem?_append_left hPlace] using hTaken, hStamp⟩

omit [Scalar α] in
/-- The head of the queue is the first packet of the log that has not left. -/
theorem depart (k : h.InOrder) {l : MeteredQueue κ α} {p : Packet}
    (hQueue : FifoQueue.toList h.link.queue = p :: FifoQueue.toList l.queue) (f : FeedbackField) :
    InOrder { h with link := l, left := h.left ++ [(f, p.stamped f)] } := by
  have hRest := k.queued.trans hQueue
  have hTaken : h.taken[h.left.length]? = some p := by
    rw [← List.head?_drop, hRest, List.head?_cons]
  have hPlace := (List.getElem?_eq_some_iff.mp hTaken).1
  constructor
  case length_le =>
    simp only [List.length_append, List.length_singleton]
    omega
  case queued =>
    rw [List.length_append, List.length_singleton, ← List.drop_drop, hRest]
    rfl
  case stamped =>
    intro place g q hLeft
    rcases getElem?_concat_cases hLeft with hOld | ⟨rfl, hLast⟩
    · exact k.stamped place g q hOld
    · obtain ⟨rfl, rfl⟩ := Prod.mk.inj hLast
      exact ⟨p, hTaken, rfl⟩

theorem after (k : h.InOrder) (event : LinkEvent α) : (h.after event).InOrder := by
  cases event with
  | enqueue p =>
      have hQueue := FifoQueue.toList_enqueue h.link.queue p
      simp only [Hop.after]
      split
      · next link hTook =>
          obtain ⟨hTrue, rfl⟩ := Prod.mk.inj hTook
          exact k.append (hQueue.trans (if_pos hTrue))
      · next link hRefused =>
          obtain ⟨hFalse, rfl⟩ := Prod.mk.inj hRefused
          exact k.of_toList_eq (hQueue.trans (if_neg (Bool.eq_false_iff.mp hFalse)))
  | dequeue =>
      simp only [Hop.after]
      split
      · next p rest hHead =>
          obtain ⟨head, hQueue, rfl⟩ := MeteredQueue.dequeue?_eq_some hHead
          exact k.depart hQueue _
      · exact k
  | arrival | sample | measure | capacity | timer | timeout | reset | close => exact k.of_toList_eq rfl

end InOrder
end Hop
end LoadFeedback
