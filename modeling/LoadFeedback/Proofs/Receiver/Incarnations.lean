import LoadFeedback.Proofs.LastSet
import LoadFeedback.Proofs.Receiver.Acknowledger
import LoadFeedback.Proofs.Receiver.Sink

/-! A receiver through all its incarnations. Each reset begins a new one, and data that left before it
belongs to an earlier one. What the receiver answers and counts is told here from the calls alone; late
data has no part in it, except that it is counted as such. -/
namespace LoadFeedback

/-- One call on a receiver. A refused packet is an event as well. -/
inductive SinkEvent where
  | packet (p : Packet) (now : Instant)
  | reset (now : Instant)

def SinkEvent.resetAt? : SinkEvent → Option Instant
  | .packet .. => none
  | .reset now => some now

/-- The data packets that came to a receiver. -/
structure Arrivals where
  /-- When the present incarnation began, unless it is the first. -/
  lastReset : Option Instant := none
  /-- The data packets that earlier incarnations accepted. -/
  former : List Packet := []
  /-- The data packets that the present incarnation has accepted, as they came. -/
  present : List Packet := []
  /-- The data packets that came too late for their incarnation. -/
  late : List Packet := []

namespace Arrivals

def accepted (a : Arrivals) : List Packet := a.former ++ a.present

/-- Whether a packet left before the present incarnation began. -/
def isLate (a : Arrivals) (p : Packet) : Bool := a.lastReset.any (p.sentAt < ·)

def after (a : Arrivals) : SinkEvent → Arrivals
  | .packet p _ =>
    if !p.isData then a
    else if a.isLate p then { a with late := a.late ++ [p] }
    else { a with present := a.present ++ [p] }
  | .reset now => { a with lastReset := some now, former := a.accepted, present := [] }

/-- What came with a list of calls, the first one first. -/
def ofEvents (events : List SinkEvent) : Arrivals := events.foldl after {}

/-- Whether a call has a part in what follows: every one has, but for data that comes too late. -/
def matters (a : Arrivals) : SinkEvent → Bool
  | .packet p _ => !(p.isData && a.isLate p)
  | .reset _ => true

/-- The calls without those that bring late data. -/
def timely (a : Arrivals) : List SinkEvent → List SinkEvent
  | [] => []
  | event :: rest =>
    if a.matters event then event :: (a.after event).timely rest else (a.after event).timely rest

theorem isLate_iff {a : Arrivals} {p : Packet} :
    a.isLate p = true ↔ ∃ t, a.lastReset = some t ∧ p.sentAt < t := by
  simp [isLate, Option.any_eq_true]

theorem lastReset_foldl (a : Arrivals) (events : List SinkEvent) :
    (events.foldl after a).lastReset = (lastSet? SinkEvent.resetAt? events).or a.lastReset := by
  induction events generalizing a with
  | nil => rfl
  | cons event rest ih =>
      have hStep : (a.after event).lastReset = event.resetAt?.or a.lastReset := by
        cases event with
        | packet p now =>
            simp only [after]
            split
            · rfl
            · split <;> rfl
        | reset now => rfl
      rw [List.foldl_cons, ih, hStep, lastSet?_cons, Option.or_assoc]

theorem lastReset_ofEvents (events : List SinkEvent) :
    (ofEvents events).lastReset = lastSet? SinkEvent.resetAt? events :=
  (lastReset_foldl {} events).trans Option.or_none

end Arrivals

namespace Sink

def after (s : Sink) : SinkEvent → Sink
  | .packet p now => (s.onData p now).2
  | .reset now => s.reset now

/-- The receiver after a list of calls, the first one first. -/
def run (s : Sink) (events : List SinkEvent) : Sink := events.foldl after s

/-- The receiver as if it had discarded nothing. -/
def withoutDiscards (s : Sink) : Sink := { s with tally := { s.tally with discarded := 0 } }

/-- A receiver holds what came in its present incarnation, and its counts are over all of them. -/
structure Follows (s : Sink) (a : Arrivals) : Prop where
  lastReset_eq : s.lastReset = a.lastReset
  holds : s.acknowledger.assembly.Holds (a.present.map (·.seq))
  acks_eq : s.tally.acks = a.accepted.length
  discarded_eq : s.tally.discarded = a.late.length

theorem follows_start (ackSize : Nat) : (start ackSize).Follows {} :=
  ⟨rfl, Assembly.holds_empty, rfl, rfl⟩

namespace Follows

variable {s : Sink} {a : Arrivals}

theorem isStale_eq (h : s.Follows a) (p : Packet) : s.isStale p = a.isLate p := by
  rw [isStale, h.lastReset_eq, Arrivals.isLate]
  cases a.lastReset <;> rfl

/-- The answer to a data packet that is not late. -/
theorem onData (h : s.Follows a) {p : Packet} (hData : p.isData = true) (hLate : a.isLate p = false)
    (now : Instant) : s.onData p now = (.ok (some (s.answer p now)), s.take p) :=
  onData_of_data hData ((h.isStale_eq p).trans hLate) now

theorem onData_of_late (h : s.Follows a) {p : Packet} (hData : p.isData = true)
    (hLate : a.isLate p = true) (now : Instant) : s.onData p now =
      (.ok none, { s with tally := { s.tally with discarded := s.tally.discarded + 1 } }) := by
  have hStale := (h.isStale_eq p).trans hLate
  simp [Sink.onData, hData, hStale]

theorem take (h : s.Follows a) (p : Packet) :
    (s.take p).Follows { a with present := a.present ++ [p] } where
  lastReset_eq := h.lastReset_eq
  holds := by
    rw [List.map_append]
    exact h.holds.record p.seq
  acks_eq := by
    have hAcks := h.acks_eq
    simp only [Arrivals.accepted, List.length_append, List.length_singleton] at hAcks ⊢
    rw [← Nat.add_assoc, ← hAcks]
    rfl
  discarded_eq := h.discarded_eq

/-- The answer names the first number that has not come to the present incarnation. -/
theorem isLeast_answer (h : s.Follows a) (p : Packet) (now : Instant) :
    IsLeast {seq | seq ∉ (a.present ++ [p]).map (·.seq)} (s.answer p now).seq :=
  (h.take p).holds.isLeast

theorem after (h : s.Follows a) (event : SinkEvent) : (s.after event).Follows (a.after event) := by
  cases event with
  | packet p now =>
      cases hData : p.isData with
      | false =>
          rcases s.onData_cases p now with ⟨_, hResult⟩ | ⟨hOther, _⟩ | ⟨hOther, _⟩
          · simpa [Sink.after, Arrivals.after, hResult, hData] using h
          · exact absurd (hOther.symm.trans hData) nofun
          · exact absurd (hOther.symm.trans hData) nofun
      | true =>
          cases hLate : a.isLate p with
          | true =>
              simp only [Sink.after, Arrivals.after, h.onData_of_late hData hLate, hData, hLate,
                Bool.not_true, Bool.false_eq_true, ↓reduceIte]
              refine { h with discarded_eq := ?_ }
              rw [List.length_append, ← h.discarded_eq]
              rfl
          | false =>
              simp only [Sink.after, Arrivals.after, h.onData hData hLate, hData, hLate,
                Bool.not_true, Bool.false_eq_true, ↓reduceIte]
              exact h.take p
  | reset now =>
      refine ⟨rfl, Assembly.holds_empty, h.acks_eq.trans ?_, h.discarded_eq⟩
      simp [Arrivals.after, Arrivals.accepted]

theorem run (h : s.Follows a) (events : List SinkEvent) :
    (s.run events).Follows (events.foldl Arrivals.after a) := by
  induction events generalizing s a with
  | nil => exact h
  | cons event rest ih => exact ih (h.after event)

theorem withoutDiscards_after (h : s.Follows a) (event : SinkEvent) :
    (s.after event).withoutDiscards =
      if a.matters event then s.withoutDiscards.after event else s.withoutDiscards := by
  cases event with
  | reset now => rfl
  | packet p now =>
      cases hData : p.isData with
      | false => simp [Sink.after, Sink.onData, Arrivals.matters, hData]
      | true =>
          have hSame : s.withoutDiscards.isStale p = a.isLate p := h.isStale_eq p
          cases hLate : a.isLate p with
          | true =>
              simp [Sink.after, h.onData_of_late hData hLate, Arrivals.matters, hData, hLate,
                withoutDiscards]
          | false =>
              simp only [Sink.after, h.onData hData hLate, Arrivals.matters, hData, hLate,
                onData_of_data hData (hSame.trans hLate), Bool.and_false, Bool.not_false, ↓reduceIte]
              rfl

/-- Late data can be left out of a run: everything else goes the same way without it. -/
theorem run_timely (h : s.Follows a) (events : List SinkEvent) :
    s.withoutDiscards.run (a.timely events) = (s.run events).withoutDiscards := by
  induction events generalizing s a with
  | nil => rfl
  | cons event rest ih =>
      have hRest := ih (h.after event)
      rw [h.withoutDiscards_after event] at hRest
      rw [Arrivals.timely]
      split
      · next hMatters =>
          rw [if_pos hMatters] at hRest
          exact hRest
      · next hLate =>
          rw [if_neg hLate] at hRest
          exact hRest

end Follows

/-- After any calls on a receiver, its next one finds a data packet late exactly if the packet left before
the most recent reset, and then only counts it. Every other data packet is accepted and answered by one
acknowledgment, with the packet's own feedback, flow and time, that names the first number missing among
those accepted since the reset. The tally counts the accepted and the late packets of all incarnations, and
an acknowledgment in place of data is refused without a trace. Without the late packets the same calls
lead to the same receiver, which then has discarded nothing. -/
theorem late_data_only_counted (ackSize : Nat) (events : List SinkEvent) :
    let s := (start ackSize).run events
    let a := Arrivals.ofEvents events
    a.lastReset = lastSet? SinkEvent.resetAt? events ∧
    (∀ p now, p.isData = true →
      ((s.onData p now).1 = .ok none ↔ ∃ t, a.lastReset = some t ∧ p.sentAt < t)) ∧
    (∀ p now, p.isData = true → (¬∃ t, a.lastReset = some t ∧ p.sentAt < t) →
      ∃ ack, (s.onData p now).1 = .ok (some ack) ∧ ack.isData = false ∧
        ack.feedback = p.feedback ∧ ack.flow = p.flow ∧ ack.echo = some p.sentAt ∧
        IsLeast {seq | seq ∉ (a.present ++ [p]).map (·.seq)} ack.seq) ∧
    s.tally.acks = a.accepted.length ∧ s.tally.discarded = a.late.length ∧
    (∀ p now, p.isData = false → s.onData p now = (.error .invalidPacket, s)) ∧
    (start ackSize).run (Arrivals.timely {} events) = s.withoutDiscards := by
  intro s a
  have h : s.Follows a := (follows_start ackSize).run events
  refine ⟨Arrivals.lastReset_ofEvents events, fun p now hData => ?_, fun p now hData hTimely => ?_,
    h.acks_eq, h.discarded_eq, fun p now hAck => by simp [onData, hAck],
    (follows_start ackSize).run_timely events⟩
  · rw [← Arrivals.isLate_iff]
    cases hLate : a.isLate p with
    | true => simp [h.onData_of_late hData hLate]
    | false => simp [h.onData hData hLate]
  · rw [← Arrivals.isLate_iff, Bool.not_eq_true] at hTimely
    exact ⟨s.answer p now, by rw [h.onData hData hTimely], rfl, rfl, rfl, rfl,
      h.isLeast_answer p now⟩

/-- The second packet left before the reset and came after it, so the new incarnation still misses the
first one. -/
example :
    let s := (start 40).run
      [.packet (.data 1 0 100 5) 6, .reset 10, .packet (.data 1 0 100 7) 11]
    s.tally.acks = 1 ∧ s.tally.discarded = 1 ∧ s.cumulative = 0 := by
  decide

end Sink
end LoadFeedback
