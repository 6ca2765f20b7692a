import LoadFeedback.Packet

/-!
A queue that takes packets while it has room and drops the rest. It counts its bytes in a machine word,
which begins again at zero when it runs over.
-/

namespace LoadFeedback

/-- A bounded queue. The packets at its end are kept in reverse. -/
structure DropTail where
  /-- The packets at the head, the first one first. -/
  front : List Packet
  /-- The packets behind them, the last one first. -/
  back : List Packet
  size : Nat
  /-- The bytes of the packets, counted in a machine word. -/
  byteCount : UInt64
  /-- How many packets there is room for. -/
  limit : Nat
  drops : Nat
  deriving DecidableEq, Repr

namespace DropTail

def empty (limit : Nat) : DropTail := ⟨[], [], 0, 0, limit, 0⟩

def toList (q : DropTail) : List Packet := q.front ++ q.back.reverse

def isEmpty (q : DropTail) : Bool := q.size == 0

def bytes (q : DropTail) : Nat := q.byteCount.toNat

def enqueue (q : DropTail) (p : Packet) : Bool × DropTail :=
  if q.limit ≤ q.size then (false, { q with drops := q.drops + 1 })
  else
    (true,
      { q with back := p :: q.back, size := q.size + 1, byteCount := q.byteCount + p.size.toUInt64 })

/-- The queue after its head has left, with the given packets in front and behind. -/
def without (q : DropTail) (head : Packet) (front back : List Packet) : DropTail :=
  { q with
    front := front, back := back, size := q.size - 1
    byteCount := q.byteCount - head.size.toUInt64 }

/-- Takes out the packet at the head. The packets at the end move up where there are none in
front. -/
def dequeue? (q : DropTail) : Option (Packet × DropTail) :=
  match q.front with
  | head :: front => some (head, q.without head front q.back)
  | [] =>
    match q.back.reverse with
    | head :: front => some (head, q.without head front [])
    | [] => none

@[simp] theorem toList_empty (limit : Nat) : (empty limit).toList = [] := rfl

theorem toList_enqueue (q : DropTail) (p : Packet) :
    (q.enqueue p).2.toList = if q.limit ≤ q.size then q.toList else q.toList ++ [p] := by
  unfold enqueue
  split <;> simp [toList]

theorem toList_dequeue? (q : DropTail) :
    q.dequeue?.map (fun r => r.1 :: r.2.toList) =
      if q.toList.isEmpty then none else some q.toList := by
  obtain ⟨front, back, _, _, _, _⟩ := q
  cases front with
  | nil => cases h : back.reverse <;> simp [dequeue?, without, toList, h]
  | cons p rest => simp [dequeue?, without, toList]

end DropTail

end LoadFeedback
