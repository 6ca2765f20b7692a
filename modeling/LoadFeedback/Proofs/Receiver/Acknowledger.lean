import LoadFeedback.Proofs.Receiver.Assembly
import Mathlib.Data.List.Sort
import Mathlib.Order.Bounds.Basic

/-! The acknowledgments of a receiver name the first packet that is still missing. What it keeps
depends on the set of numbers that have arrived since it was last reset, and on nothing else. -/
namespace LoadFeedback

/-- What two assemblies hold decides what they are. -/
theorem Assembly.Holds.ext {a b : Assembly} {received other : List Nat} (h : a.Holds received)
    (k : b.Holds other) (same : ∀ s, s ∈ received ↔ s ∈ other) : a = b := by
  have hMissing : a.missing = b.missing := by
    apply Nat.le_antisymm
    · exact h.missing_le fun hs => k.missing_notMem ((same _).mp hs)
    · exact k.missing_le fun hs => h.missing_notMem ((same _).mpr hs)
  have hAbove : a.above = b.above := by
    apply h.rising.eq_of_mem_iff k.rising
    intro s
    rw [h.mem_above, k.mem_above, hMissing, same]
  cases a
  cases b
  simp_all

theorem Assembly.Holds.isLeast {a : Assembly} {received : List Nat} (h : a.Holds received) :
    IsLeast {s | s ∉ received} a.missing :=
  ⟨h.missing_notMem, fun _ hs => h.missing_le hs⟩

/-- One call on an acknowledger. A refused packet is an event as well. -/
inductive AcknowledgerEvent where
  | packet (p : Packet) (now : Instant)
  | reset

namespace AcknowledgerEvent

/-- The numbers that have arrived since the last reset, after one more call. -/
def extend (received : List Nat) : AcknowledgerEvent → List Nat
  | packet p _ => if p.isData then received ++ [p.seq] else received
  | reset => []

/-- The numbers of the data packets that have arrived since the last reset, as they came. -/
def received (events : List AcknowledgerEvent) : List Nat :=
  events.foldl extend []

end AcknowledgerEvent

namespace Acknowledger

open AcknowledgerEvent

def after (a : Acknowledger) : AcknowledgerEvent → Acknowledger
  | .packet p now => (a.onData p now).2
  | .reset => a.reset

/-- The acknowledger after a list of calls, the first one first. -/
def run (a : Acknowledger) (events : List AcknowledgerEvent) : Acknowledger :=
  events.foldl after a

theorem onData_of_data (a : Acknowledger) {p : Packet} (hData : p.isData = true) (now : Instant) :
    a.onData p now =
      (.ok (.ack p.flow (a.assembly.record p.seq).missing a.ackSize now p.sentAt),
        { a with assembly := a.assembly.record p.seq }) := by
  simp [onData, hData, cumulative]

theorem onData_of_ack (a : Acknowledger) {p : Packet} (hAck : p.isData = false) (now : Instant) :
    a.onData p now = (.error .invalidPacket, a) := by
  simp [onData, hAck]

theorem ackSize_after (a : Acknowledger) (event : AcknowledgerEvent) :
    (a.after event).ackSize = a.ackSize := by
  cases event with
  | packet p now =>
      cases hData : p.isData with
      | true => simp [after, a.onData_of_data hData]
      | false => simp [after, a.onData_of_ack hData]
  | reset => rfl

theorem holds_after {a : Acknowledger} {past : List Nat} (h : a.assembly.Holds past)
    (event : AcknowledgerEvent) : (a.after event).assembly.Holds (event.extend past) := by
  cases event with
  | packet p now =>
      cases hData : p.isData with
      | true =>
          simp only [after, a.onData_of_data hData, extend, hData, ↓reduceIte]
          exact h.record p.seq
      | false =>
          simp only [after, a.onData_of_ack hData, extend, hData, Bool.false_eq_true, ↓reduceIte]
          exact h
  | reset => exact Assembly.holds_empty

theorem ackSize_run (a : Acknowledger) (events : List AcknowledgerEvent) :
    (a.run events).ackSize = a.ackSize := by
  induction events generalizing a with
  | nil => rfl
  | cons event rest ih => exact (ih (a.after event)).trans (a.ackSize_after event)

theorem holds_run {a : Acknowledger} {past : List Nat} (h : a.assembly.Holds past)
    (events : List AcknowledgerEvent) :
    (a.run events).assembly.Holds (events.foldl extend past) := by
  induction events generalizing a past with
  | nil => exact h
  | cons event rest ih => exact ih (holds_after h event)

/-- After any calls, the cumulative number is the least one that has not arrived since the last reset.
The numbers above it that have arrived are kept in order, each once, and with those below it they are
the ones contained. A data packet is answered with the cumulative number after it, which never falls.
Which numbers have arrived decides the whole state, and if they are all below some bound, the
cumulative number does not go beyond it. -/
theorem cumulative_isLeast_missing (ackSize : Nat) (events : List AcknowledgerEvent) :
    let a := (start ackSize).run events
    let arrived := received events
    IsLeast {s | s ∉ arrived} a.cumulative ∧
    (∀ s, a.assembly.contains s = true ↔ s ∈ arrived) ∧
    (∀ s, s ∈ a.assembly.above ↔ a.cumulative < s ∧ s ∈ arrived) ∧
    a.assembly.above.Pairwise (· < ·) ∧
    (∀ p now, p.isData = true →
      a.onData p now = (.ok (.ack p.flow (a.after (.packet p now)).cumulative ackSize now p.sentAt),
        a.after (.packet p now))) ∧
    (∀ p now, p.isData = false → a.onData p now = (.error .invalidPacket, a)) ∧
    (∀ p now, a.cumulative ≤ (a.after (.packet p now)).cumulative) ∧
    (∀ other : List AcknowledgerEvent, (∀ s, s ∈ received other ↔ s ∈ arrived) →
      (start ackSize).run other = a) ∧
    ∀ bound, (∀ s ∈ arrived, s < bound) → a.cumulative ≤ bound := by
  intro a arrived
  have hRun (calls : List AcknowledgerEvent) :
      ((start ackSize).run calls).assembly.Holds (received calls) :=
    holds_run Assembly.holds_empty calls
  have h : a.assembly.Holds arrived := hRun events
  have hSize (calls : List AcknowledgerEvent) : ((start ackSize).run calls).ackSize = ackSize :=
    ackSize_run _ calls
  refine ⟨h.isLeast, h.contains_iff, h.mem_above, h.rising, ?_, ?_, ?_, ?_, ?_⟩
  · intro p now hData
    have hAnswer := a.onData_of_data hData now
    rw [hSize] at hAnswer
    rw [hAnswer]
    simp only [after, hAnswer]
    rfl
  · intro p now hAck
    exact a.onData_of_ack hAck now
  · intro p now
    have hNext := holds_after h (.packet p now)
    cases hData : p.isData with
    | true =>
        rw [extend, if_pos hData] at hNext
        exact h.missing_mono hNext
    | false =>
        rw [after, a.onData_of_ack hData]
  · intro other hSame
    have hAssembly := (hRun other).ext h hSame
    have hBoth := (hSize other).trans (hSize events).symm
    exact congrArg₂ Acknowledger.mk hAssembly hBoth
  · intro bound hBelow
    exact h.missing_le fun hs => Nat.lt_irrefl bound (hBelow bound hs)

end Acknowledger
end LoadFeedback
