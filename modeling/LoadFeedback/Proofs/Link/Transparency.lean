import Mathlib.Algebra.Group.Action.Defs
import Mathlib.Algebra.Order.BigOperators.Group.List
import Mathlib.Algebra.Order.Group.Nat
import Mathlib.Data.List.Forall2
import LoadFeedback.Proofs.Calls
import LoadFeedback.Proofs.Link.Accounts

/-! A link is its queue with a measurement around it. Whatever is measured meanwhile, the link takes,
refuses and hands out the same packets as the queue alone, up to the stamps of their departure. -/
namespace LoadFeedback

/-- One call on a queue. -/
inductive QueueEvent where
  | enqueue (p : Packet)
  | dequeue

/-- What a queue does at a call. -/
inductive QueueAnswer where
  | taken (p : Packet)
  | refused (p : Packet)
  | departed (p : Packet)
  /-- No packet is there to depart. -/
  | empty

namespace QueueAnswer

def taken? : QueueAnswer → Option Packet
  | taken p => some p
  | _ => none

def departed? : QueueAnswer → Option Packet
  | departed p => some p
  | _ => none

def isRefusal : QueueAnswer → Bool
  | refused _ => true
  | _ => false

end QueueAnswer

/-- A packet after a link: the feedback of a data packet may have risen, and nothing else has changed. -/
structure Packet.Passes (p q : Packet) : Prop where
  eq_withFeedback : q = p.withFeedback q.feedback
  feedback_le : p.feedback ≤ q.feedback
  ack_unchanged : p.isData = false → q = p

namespace Packet

theorem passes_refl (p : Packet) : p.Passes p :=
  ⟨rfl, FeedbackField.le_iff.mpr (Nat.le_refl _), fun _ => rfl⟩

theorem passes_stamped (p : Packet) (f : FeedbackField) : p.Passes (p.stamped f) where
  eq_withFeedback := p.stamped_eq f
  feedback_le := by
    cases hKind : p.isData with
    | true =>
        rw [stamped_of_data hKind]
        exact p.feedback.le_severest_left f
    | false =>
        rw [stamped_of_ack hKind]
        exact (passes_refl p).feedback_le
  ack_unchanged hKind := stamped_of_ack hKind f

end Packet

/-- Two queues do the same, but for the stamp of a packet that departs. The one without stamps comes
first. -/
inductive QueueAnswer.Alike : QueueAnswer → QueueAnswer → Prop where
  | taken (p : Packet) : Alike (.taken p) (.taken p)
  | refused (p : Packet) : Alike (.refused p) (.refused p)
  | departed {p q : Packet} (passes : p.Passes q) : Alike (.departed p) (.departed q)
  | empty : Alike .empty .empty

variable {κ α : Type}

namespace PacketQueue

variable [PacketQueue κ]

def call (q : κ) : QueueEvent → QueueAnswer × κ
  | .enqueue p =>
    let (accepted, q) := enqueue q p
    (if accepted then .taken p else .refused p, q)
  | .dequeue =>
    match dequeue? q with
    | some (p, q) => (.departed p, q)
    | none => (.empty, q)

end PacketQueue

namespace QueueAnswer

variable {bare stamped : List QueueAnswer}

theorem taken_eq (h : List.Forall₂ Alike bare stamped) :
    stamped.filterMap taken? = bare.filterMap taken? := by
  induction h with
  | nil => rfl
  | cons first rest ih => cases first <;> simp [List.filterMap_cons, taken?, ih]

theorem refusals_eq (h : List.Forall₂ Alike bare stamped) :
    stamped.countP isRefusal = bare.countP isRefusal := by
  induction h with
  | nil => rfl
  | cons first rest ih => cases first <;> simp [List.countP_cons, isRefusal, ih]

theorem departed_passes (h : List.Forall₂ Alike bare stamped) :
    List.Forall₂ Packet.Passes (bare.filterMap departed?) (stamped.filterMap departed?) := by
  induction h with
  | nil => exact .nil
  | cons first rest ih =>
      cases first with
      | taken | refused | empty => exact ih
      | departed passes => exact .cons passes ih

end QueueAnswer

/-- What a FIFO queue takes waits behind all others, and the first packet departs. -/
theorem FifoQueue.departed_append_call [FifoQueue κ] (q : κ) (c : QueueEvent) :
    (PacketQueue.call q c).1.departed?.toList ++ toList (PacketQueue.call q c).2 =
      toList q ++ (PacketQueue.call q c).1.taken?.toList := by
  cases c with
  | enqueue p =>
      have hList := toList_enqueue q p
      cases hTook : (PacketQueue.enqueue q p).1 with
      | true => simpa [PacketQueue.call, hTook, QueueAnswer.departed?, QueueAnswer.taken?] using hList
      | false => simpa [PacketQueue.call, hTook, QueueAnswer.departed?, QueueAnswer.taken?] using hList
  | dequeue =>
      cases hHead : PacketQueue.dequeue? q with
      | none => simp [PacketQueue.call, hHead, QueueAnswer.departed?, QueueAnswer.taken?]
      | some out =>
          obtain ⟨p, rest⟩ := out
          have hList := toList_of_dequeue? hHead
          simp [PacketQueue.call, hHead, QueueAnswer.departed?, QueueAnswer.taken?, hList]

/-- What has departed, and then what is queued, is what was queued and then what was taken. -/
theorem FifoQueue.departed_append_toList [FifoQueue κ] (q : κ) (calls : List QueueEvent) :
    (Calls.answers PacketQueue.call q calls).filterMap QueueAnswer.departed? ++
        toList (Calls.run PacketQueue.call q calls) =
      toList q ++ (Calls.answers PacketQueue.call q calls).filterMap QueueAnswer.taken? := by
  induction calls generalizing q with
  | nil => simp [Calls.answers]
  | cons c rest ih =>
      have hCons (f : QueueAnswer → Option Packet) (a : QueueAnswer) (as : List QueueAnswer) :
          (a :: as).filterMap f = (f a).toList ++ as.filterMap f := by
        cases h : f a <;> simp [h]
      rw [Calls.answers, Calls.run_cons, hCons, hCons, List.append_assoc, ih, ← List.append_assoc,
        departed_append_call, List.append_assoc]

/-- A link is itself a queue. -/
instance [PacketQueue κ] : PacketQueue (MeteredQueue κ α) where
  enqueue := MeteredQueue.enqueue
  dequeue? := MeteredQueue.dequeue?
  bytes l := PacketQueue.bytes l.queue

/-- The part of the queue in what happens to a link. -/
def LinkEvent.queueEvent? : LinkEvent α → Option QueueEvent
  | .enqueue p => some (.enqueue p)
  | .dequeue => some .dequeue
  | _ => none

namespace MeteredQueue

variable [PacketQueue κ]

theorem call_alike (l : MeteredQueue κ α) (c : QueueEvent) :
    (PacketQueue.call l.queue c).1.Alike (PacketQueue.call l c).1 ∧
      (PacketQueue.call l c).2.queue = (PacketQueue.call l.queue c).2 := by
  cases c with
  | enqueue p =>
      refine ⟨?_, rfl⟩
      cases hTook : (PacketQueue.enqueue l.queue p).1 with
      | true => simpa [PacketQueue.call, PacketQueue.enqueue, enqueue, hTook] using .taken p
      | false => simpa [PacketQueue.call, PacketQueue.enqueue, enqueue, hTook] using .refused p
  | dequeue =>
      cases hHead : PacketQueue.dequeue? l.queue with
      | none => simpa [PacketQueue.call, PacketQueue.dequeue?, dequeue?, hHead] using .empty
      | some out =>
          simpa [PacketQueue.call, PacketQueue.dequeue?, dequeue?, hHead] using
            .departed (out.1.passes_stamped l.meter.reading.feedback)

variable [Scalar α]

theorem after_of_queueEvent? {l : MeteredQueue κ α} {event : LinkEvent α} {c : QueueEvent}
    (h : event.queueEvent? = some c) : l.after event = (PacketQueue.call l c).2 := by
  cases event with
  | enqueue p => cases h; rfl
  | dequeue =>
      cases h
      cases hHead : l.dequeue? <;> simp [after, PacketQueue.call, PacketQueue.dequeue?, hHead]
  | arrival | sample | measure | capacity | timer | timeout | reset | close => cases h

theorem queue_after_of_queueEvent?_eq_none {l : MeteredQueue κ α} {event : LinkEvent α}
    (h : event.queueEvent? = none) : (l.after event).queue = l.queue := by
  cases event with
  | enqueue | dequeue => cases h
  | arrival | sample | measure | capacity | timer | timeout | reset | close => rfl

/-- What the link does at those of the events that concern its queue. -/
def answers (l : MeteredQueue κ α) : List (LinkEvent α) → List QueueAnswer
  | [] => []
  | event :: rest =>
    match event.queueEvent? with
    | some c => (PacketQueue.call l c).1 :: (l.after event).answers rest
    | none => (l.after event).answers rest

/-- A link does what its queue does alone. -/
theorem answers_alike (l : MeteredQueue κ α) (events : List (LinkEvent α)) :
    let calls := events.filterMap LinkEvent.queueEvent?
    List.Forall₂ QueueAnswer.Alike (Calls.answers PacketQueue.call l.queue calls) (l.answers events) ∧
      (events.foldl after l).queue = Calls.run PacketQueue.call l.queue calls := by
  induction events generalizing l with
  | nil => exact ⟨.nil, rfl⟩
  | cons event rest ih =>
      obtain ⟨hAnswers, hQueue⟩ := ih (l.after event)
      rw [answers, List.foldl_cons, hQueue]
      cases hCall : event.queueEvent? with
      | none =>
          rw [queue_after_of_queueEvent?_eq_none hCall] at hAnswers ⊢
          rw [List.filterMap_cons_none hCall]
          exact ⟨hAnswers, rfl⟩
      | some c =>
          obtain ⟨hAlike, hSame⟩ := l.call_alike c
          rw [after_of_queueEvent? hCall] at hAnswers ⊢
          rw [hSame] at hAnswers ⊢
          rw [List.filterMap_cons_some hCall]
          exact ⟨.cons hAlike hAnswers, rfl⟩

end MeteredQueue

namespace DropTail

variable {q : DropTail} {limit : Nat}

theorem limit_of_dequeue? {p : Packet} {rest : DropTail} (h : q.dequeue? = some (p, rest)) :
    rest.limit = q.limit := by
  unfold dequeue? at h
  split at h
  · cases h
    rfl
  · split at h <;> cases h
    rfl

/-- A queue that counts its packets and their bytes, and has room for so many. -/
structure Bounded (q : DropTail) (limit : Nat) : Prop where
  limit_eq : q.limit = limit
  sized : q.Sized
  weighed : q.Weighed
  size_le : q.size ≤ limit

theorem bounded_empty (limit : Nat) : (empty limit).Bounded limit :=
  ⟨rfl, rfl, weighed_empty limit, Nat.zero_le _⟩

namespace Bounded

/-- A packet is refused where the queue is full, and then only counted. -/
theorem enqueue_of_full (h : q.Bounded limit) (p : Packet) (full : q.size = limit) :
    q.enqueue p = (false, { q with drops := q.drops + 1 }) :=
  if_pos (Nat.le_of_eq (h.limit_eq.trans full.symm))

theorem enqueue_of_room (h : q.Bounded limit) (p : Packet) (room : q.size ≠ limit) :
    q.enqueue p =
      (true,
        { q with back := p :: q.back, size := q.size + 1, byteCount := q.byteCount + p.size.toUInt64 }) := by
  have hRoom := h.size_le
  exact if_neg (by rw [h.limit_eq]; omega)

theorem refused_iff (h : q.Bounded limit) (p : Packet) : (q.enqueue p).1 = false ↔ q.size = limit := by
  by_cases hFull : q.size = limit
  · simp [h.enqueue_of_full p hFull, hFull]
  · simp [h.enqueue_of_room p hFull, hFull]

/-- The bytes of the head are among those that are counted, as long as a word can hold them all. -/
theorem bytes_of_dequeue? (h : q.Bounded limit) (fits : q.weight < UInt64.size) {p : Packet}
    {rest : DropTail} (head : q.dequeue? = some (p, rest)) : q.bytes = rest.bytes + p.size := by
  have hWeight := weight_of_dequeue? head
  rw [h.weighed.bytes_eq, (h.weighed.dequeue? head).bytes_eq, Nat.mod_eq_of_lt fits,
    Nat.mod_eq_of_lt (by omega), hWeight]

/-- Packets of moderate size cannot weigh much. -/
theorem weight_le (h : q.Bounded limit) {largest : Nat} (sizes : ∀ p ∈ q.toList, p.size ≤ largest) :
    q.weight ≤ limit * largest := by
  have hSum := (q.toList.map (·.size)).sum_le_card_nsmul largest (List.forall_mem_map.mpr sizes)
  rw [List.length_map, ← h.sized, smul_eq_mul] at hSum
  exact Nat.le_trans hSum (Nat.mul_le_mul_right _ h.size_le)

theorem call (h : q.Bounded limit) (c : QueueEvent) :
    (PacketQueue.call q c).2.Bounded limit ∧ (PacketQueue.call q c).2.drops =
      q.drops + if (PacketQueue.call q c).1.isRefusal then 1 else 0 := by
  cases c with
  | enqueue p =>
      have hSized : (q.enqueue p).2.Sized := h.sized.enqueue p
      have hWeighed : (q.enqueue p).2.Weighed := h.weighed.enqueue p
      have hSize := h.size_le
      by_cases hFull : q.size = limit
      · have hRefused := h.enqueue_of_full p hFull
        rw [hRefused] at hSized hWeighed
        simp only [PacketQueue.call, PacketQueue.enqueue, hRefused]
        exact ⟨⟨h.limit_eq, hSized, hWeighed, hSize⟩, rfl⟩
      · have hTaken := h.enqueue_of_room p hFull
        rw [hTaken] at hSized hWeighed
        simp only [PacketQueue.call, PacketQueue.enqueue, hTaken]
        exact ⟨⟨h.limit_eq, hSized, hWeighed, Nat.lt_of_le_of_ne hSize hFull⟩, rfl⟩
  | dequeue =>
      cases hHead : q.dequeue? with
      | none =>
          simp only [PacketQueue.call, PacketQueue.dequeue?, hHead]
          exact ⟨h, rfl⟩
      | some out =>
          obtain ⟨_, hSize, hDrops, _⟩ := dequeue?_eq_some hHead
          have hLess : out.2.size ≤ limit := hSize ▸ Nat.le_trans (Nat.sub_le _ 1) h.size_le
          simp only [PacketQueue.call, PacketQueue.dequeue?, hHead]
          exact ⟨⟨(limit_of_dequeue? hHead).trans h.limit_eq, h.sized.dequeue? hHead,
            h.weighed.dequeue? hHead, hLess⟩, hDrops⟩

theorem run (h : q.Bounded limit) (calls : List QueueEvent) :
    (Calls.run PacketQueue.call q calls).Bounded limit ∧ (Calls.run PacketQueue.call q calls).drops =
      q.drops + (Calls.answers PacketQueue.call q calls).countP QueueAnswer.isRefusal := by
  induction calls generalizing q with
  | nil => exact ⟨h, rfl⟩
  | cons c rest ih =>
      obtain ⟨hNext, hDrops⟩ := h.call c
      obtain ⟨hLast, hCount⟩ := ih hNext
      refine ⟨hLast, ?_⟩
      rw [Calls.run_cons, hCount, hDrops, Calls.answers, List.countP_cons]
      omega

end Bounded
end DropTail

/-- Whatever is offered to a link, taken from it and measured on it, the link takes, refuses and hands out
what its queue alone would at the same calls, with the same length, bytes and drops; only the feedback of
data packets may rise as they depart. Of the packets that were taken, the first ones have departed and all
others are queued, in the order in which they came. There are never more than the queue has room for; a
packet is refused exactly where the queue is full, and then counted and nothing else. The count of bytes is
that of the queued packets, less what a word cannot hold. As long as a word can hold them all, as with
packets of moderate size, the bytes of a departing packet can be taken away from it. -/
theorem MeteredQueue.transparent_over_drop_tail [Scalar α] (limit : Nat) (m : Meter α)
    (events : List (LinkEvent α)) :
    let start : LinkQueue α := ⟨.empty limit, m⟩
    let l := events.foldl after start
    let answers := start.answers events
    let calls := events.filterMap LinkEvent.queueEvent?
    let q := Calls.run PacketQueue.call (DropTail.empty limit) calls
    let bare := Calls.answers PacketQueue.call (DropTail.empty limit) calls
    List.Forall₂ QueueAnswer.Alike bare answers ∧
    l.queue.size = q.size ∧ l.queue.bytes = q.bytes ∧ l.queue.drops = q.drops ∧
    bare.filterMap QueueAnswer.departed? ++ q.toList = bare.filterMap QueueAnswer.taken? ∧
    (∃ left, answers.filterMap QueueAnswer.taken? = left ++ l.queue.toList ∧
      List.Forall₂ Packet.Passes left (answers.filterMap QueueAnswer.departed?)) ∧
    l.queue.size = l.queue.toList.length ∧ l.queue.size ≤ limit ∧
    l.queue.drops = answers.countP QueueAnswer.isRefusal ∧
    (∀ p, (l.enqueue p).1 = false ↔ l.queue.size = limit) ∧
    (∀ p, (l.enqueue p).1 = false →
      (l.enqueue p).2.queue = { l.queue with drops := l.queue.drops + 1 }) ∧
    l.queue.bytes = (l.queue.toList.map (·.size)).sum % UInt64.size ∧
    ((l.queue.toList.map (·.size)).sum < UInt64.size →
      l.queue.bytes = (l.queue.toList.map (·.size)).sum ∧
      ∀ p rest, l.queue.dequeue? = some (p, rest) → l.queue.bytes = rest.bytes + p.size) ∧
    (∀ largest, (∀ p ∈ l.queue.toList, p.size ≤ largest) →
      (l.queue.toList.map (·.size)).sum ≤ limit * largest) := by
  intro start l answers calls q bare
  obtain ⟨hAlike, hQueue⟩ := start.answers_alike events
  obtain ⟨hBounded, hDrops⟩ := (DropTail.bounded_empty limit).run calls
  have hOrder := FifoQueue.departed_append_toList (DropTail.empty limit) calls
  rw [hQueue]
  refine ⟨hAlike, rfl, rfl, rfl, hOrder, ⟨bare.filterMap QueueAnswer.departed?, ?_,
    QueueAnswer.departed_passes hAlike⟩, hBounded.sized, hBounded.size_le, ?_, fun p => ?_,
    fun p hRefused => ?_, hBounded.weighed.bytes_eq,
    fun hFits => ⟨?_, fun p rest => hBounded.bytes_of_dequeue? hFits⟩,
    fun largest => hBounded.weight_le⟩
  · rw [QueueAnswer.taken_eq hAlike]
    exact hOrder.symm
  · rw [QueueAnswer.refusals_eq hAlike, hDrops]
    exact Nat.zero_add _
  · have hAnswer : (l.enqueue p).1 = (l.queue.enqueue p).1 := rfl
    rw [hAnswer, hQueue]
    exact hBounded.refused_iff p
  · have hAnswer : (l.enqueue p).1 = (l.queue.enqueue p).1 := rfl
    have hAfter : (l.enqueue p).2.queue = (l.queue.enqueue p).2 := rfl
    rw [hAnswer, hQueue] at hRefused
    rw [hAfter, hQueue, hBounded.enqueue_of_full p ((hBounded.refused_iff p).mp hRefused)]
  · exact hBounded.weighed.bytes_eq.trans (Nat.mod_eq_of_lt hFits)

/-- Two packets of half a word each. Their bytes are counted as none, and none is less than the bytes of
the packet that is to depart. -/
theorem MeteredQueue.large_packets_counted_as_none :
    let p (seq : Nat) : Packet := .data 1 seq (2 ^ 63) 0
    let config : LinkConfig Float := { LinkConfig.standard with capacity := some 1e7 }
    let start : LinkQueue Float := ⟨.empty 2, .start config 1e7 0⟩
    let l := [LinkEvent.enqueue (p 0), .enqueue (p 1)].foldl after start
    build (.empty 2) config 0 = .ok start ∧ l.queue.toList = [p 0, p 1] ∧
      (l.queue.toList.map (·.size)).sum = 2 ^ 64 ∧ l.queue.bytes = 0 ∧
      ∃ rest, l.queue.dequeue? = some (p 0, rest) ∧ l.queue.bytes < (p 0).size := by
  have hValid : { LinkConfig.standard with capacity := some (1e7 : Float) }.validate = .ok 1e7 := by
    rfl
  intro p config start l
  refine ⟨build_eq_ok_iff.mpr ⟨1e7, hValid, rfl⟩, rfl, ?_, ?_, _, rfl, ?_⟩
  · decide +kernel
  · decide +kernel
  · decide +kernel

/-- The second packet finds the queue full, and the first one departs. -/
example (a b : Packet) :
    Calls.answers PacketQueue.call (DropTail.empty 1) [.enqueue a, .enqueue b, .dequeue, .dequeue] =
      [.taken a, .refused b, .departed a, .empty] :=
  rfl

end LoadFeedback
