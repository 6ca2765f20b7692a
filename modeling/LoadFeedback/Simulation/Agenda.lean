import Std.Data.TreeMap
import LoadFeedback.Time

/-!
Events that are to come, by the instant at which they happen. Events of one instant happen in the
order in which they were put down, so each event gets a ticket, and tickets only grow.
-/

namespace LoadFeedback

/-- When an event happens, and its turn among those of the same instant. -/
structure Slot where
  time : Instant
  /-- How many events were put down before. -/
  ticket : Nat
  deriving DecidableEq, Repr

namespace Slot

/-- Earlier slots come first, and of one instant those with the smaller ticket. -/
def order : Slot → Slot → Ordering :=
  compareLex (compareOn time) (compareOn ticket)

instance : Std.TransCmp order := by
  unfold order
  infer_instance

instance : Std.LawfulEqCmp order where
  eq_of_compare {a b} h := by
    obtain ⟨t, n⟩ := a
    obtain ⟨u, m⟩ := b
    simpa [order, compareLex, compareOn, Ordering.then_eq_eq] using h

end Slot

/-- Events to come. -/
structure Agenda (ε : Type) where
  events : Std.TreeMap Slot ε Slot.order
  nextTicket : Nat

namespace Agenda

variable {ε : Type}

def empty : Agenda ε := ⟨∅, 0⟩

/-- How many events are to come. -/
def size (a : Agenda ε) : Nat := a.events.size

def isEmpty (a : Agenda ε) : Bool := a.events.isEmpty

/-- Puts down an event. -/
def push (a : Agenda ε) (time : Instant) (event : ε) : Agenda ε :=
  ⟨a.events.insert ⟨time, a.nextTicket⟩ event, a.nextTicket + 1⟩

/-- When the first event happens. -/
def next? (a : Agenda ε) : Option Instant :=
  a.events.minKey?.map (·.time)

/-- Takes out the first event if it is due. -/
def popDue? (a : Agenda ε) (now : Instant) : Option (ε × Agenda ε) :=
  match a.events.minKey? with
  | none => none
  | some slot =>
    if slot.time ≤ now then
      a.events[slot]?.map fun event => (event, { a with events := a.events.erase slot })
    else none

end Agenda

end LoadFeedback
