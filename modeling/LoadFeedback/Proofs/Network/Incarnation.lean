import LoadFeedback.Proofs.Flow.Acknowledgment
import LoadFeedback.Proofs.Network.Exchange

/-! A sender and a receiver that were both reset, over a network that still holds packets from before.
The receiver tells old data from new by the instants at which it left. The sender looks at the numbers of
an acknowledgment only, and these start again at zero: an old acknowledgment of numbers that were sent
again counts for packets that the receiver has not seen. -/
namespace LoadFeedback

variable {α : Type}

/-- An acknowledgment sets the acknowledged count to its number, unless it is refused or old. -/
theorem Flow.acked_after_ack [PowerScalar α] (f : Flow α) (p : Packet) (now : Instant) :
    (¬f.Refuses p ∧ f.acked < p.seq ∧ (f.after (.ack p now)).2.acked = p.seq) ∨
      ((f.Refuses p ∨ p.seq ≤ f.acked) ∧ (f.after (.ack p now)).2.acked = f.acked) := by
  by_cases hRefused : f.Refuses p
  · obtain ⟨fault, hResult⟩ := onAck_of_refuses hRefused now
    refine Or.inr ⟨Or.inl hRefused, ?_⟩
    rw [after, hResult]
    rfl
  · obtain ⟨hAck, hSent, hOld | ⟨hNew, hCheck⟩⟩ := cases_of_not_refuses hRefused
    · refine Or.inr ⟨Or.inr hOld, ?_⟩
      rw [after, onAck_of_seq_le_acked hAck hSent hOld now]
      rfl
    · obtain ⟨g, _, hSeq, hAccept⟩ := accept_of_check now hNew hSent hCheck
      refine Or.inl ⟨hRefused, hNew, ?_⟩
      rw [after, onAck_eq_accept hNew hSent hCheck now, hAccept]
      exact (departs_sendMany g now).keeps.2.1.trans hSeq

/-- Both ends after they were reset, and what the network holds from before. -/
structure Renewal (α : Type) where
  present : Exchange α
  past : Exchange α
  /-- The old acknowledgments that the sender was given, as they arrived. -/
  late : List Packet := []

/-- What can happen after the reset. Old packets are named by their places as well. -/
inductive RenewalEvent where
  | present (event : ExchangeEvent)
  /-- An old data packet arrives, with any feedback that the links have left in it. -/
  | lateData (index : Nat) (feedback : FeedbackField) (now : Instant)
  /-- An old acknowledgment arrives. -/
  | lateAck (index : Nat) (now : Instant)

namespace Exchange

/-- An old packet is counted by the receiver and changes nothing else. -/
theorem arrive_of_stale (x : Exchange α) {p : Packet} (hStale : x.sink.isStale p = true)
    (now : Instant) : ∃ tally, x.arrive p now = { x with sink := { x.sink with tally := tally } } := by
  rcases x.sink.onData_cases p now with ⟨_, hResult⟩ | ⟨_, _, hResult⟩ | ⟨_, hFresh, _⟩
  · exact ⟨x.sink.tally, by rw [arrive, hResult]⟩
  · exact ⟨_, by rw [arrive, hResult]⟩
  · rw [hStale] at hFresh
    cases hFresh

/-- Both ends are reset at an instant. -/
def renew [PowerScalar α] (x : Exchange α) (t : Instant) : Renewal α where
  present := { flow := x.flow.reset, sink := x.sink.reset t }
  past := x

end Exchange

namespace Renewal

variable {r : Renewal α} {t : Instant}

section

variable [PowerScalar α]

def after (r : Renewal α) : RenewalEvent → Renewal α
  | .present event => { r with present := r.present.after event }
  | .lateData index feedback now =>
    match r.past.sent[index]? with
    | some p => { r with present := r.present.arrive (p.withFeedback feedback) now }
    | none => r
  | .lateAck index now =>
    match r.past.acks[index]? with
    | some ack => { r with present := r.present.call (.ack ack now), late := r.late ++ [ack] }
    | none => r

/-- Both ends after a list of events, the first one first. -/
def run (r : Renewal α) (events : List RenewalEvent) : Renewal α :=
  events.foldl after r

end

/-- The receiver has taken nothing but packets that left after the reset, and only an old acknowledgment
can have led the sender ahead of it. -/
structure Separate (t : Instant) (r : Renewal α) : Prop where
  past_lt : ∀ p ∈ r.past.sent, p.sentAt < t
  reset_eq : r.present.sink.lastReset = some t
  accounted : r.present.flow.Accounted r.present.sent
  holds : r.present.sink.acknowledger.assembly.Holds (r.present.taken.map (·.seq))
  taken_sent : ∀ p ∈ r.present.taken, ∃ q ∈ r.present.sent, ∃ feedback, p = q.withFeedback feedback
  acks_le : ∀ ack ∈ r.present.acks, ack.seq ≤ r.present.sink.cumulative
  acked_le : r.present.flow.acked ≤ r.present.sink.cumulative ∨
    ∃ ack ∈ r.late, r.present.flow.acked ≤ ack.seq

namespace Separate

theorem cumulative_le (h : r.Separate t) : r.present.sink.cumulative ≤ r.present.flow.nextSeq := by
  refine h.holds.missing_le fun hMem => ?_
  obtain ⟨p, hp, hSeq⟩ := List.mem_map.mp hMem
  obtain ⟨q, hq, feedback, rfl⟩ := h.taken_sent p hp
  have hRange := List.mem_map_of_mem (f := (·.seq)) hq
  rw [h.accounted.numbered, List.mem_range] at hRange
  exact Nat.ne_of_lt hRange hSeq

/-- Whatever arrives at the receiver is old and ignored, or new and answered with the number that is
missing then. -/
theorem arrive (h : r.Separate t) {p : Packet} (feedback : FeedbackField) (now : Instant)
    (origin : p ∈ r.present.sent ∨ p ∈ r.past.sent) :
    Separate t { r with present := r.present.arrive (p.withFeedback feedback) now } := by
  cases hStale : r.present.sink.isStale (p.withFeedback feedback) with
  | true =>
      obtain ⟨tally, hArrive⟩ := r.present.arrive_of_stale hStale now
      rw [hArrive]
      exact { h with }
  | false =>
      have hNew : p ∈ r.present.sent := by
        refine origin.resolve_right fun hOld => ?_
        have hLate : r.present.sink.isStale (p.withFeedback feedback) = true := by
          rw [Sink.isStale, h.reset_eq]
          exact decide_eq_true (h.past_lt p hOld)
        rw [hLate] at hStale
        cases hStale
      have hData : (p.withFeedback feedback).isData = true := by
        simp [Packet.isData, Packet.withFeedback, (h.accounted.initial p hNew).1]
      have hHolds := h.holds.record p.seq
      have hRises : r.present.sink.cumulative ≤
          (r.present.sink.take (p.withFeedback feedback)).cumulative := h.holds.missing_mono hHolds
      rw [r.present.arrive_of_data hData hStale now]
      constructor
      case past_lt => exact h.past_lt
      case reset_eq => exact h.reset_eq
      case accounted => exact h.accounted
      case holds =>
        rw [List.map_append]
        exact hHolds
      case taken_sent =>
        intro q hq
        rcases List.mem_append.mp hq with hq | hq
        · exact h.taken_sent q hq
        · exact ⟨p, hNew, feedback, List.mem_singleton.mp hq⟩
      case acks_le =>
        intro ack hMem
        rcases List.mem_append.mp hMem with hOld | hNew
        · exact Nat.le_trans (h.acks_le ack hOld) hRises
        · rw [List.mem_singleton.mp hNew]
          exact Nat.le_refl _
      case acked_le => exact h.acked_le.imp (Nat.le_trans · hRises) id

variable [PowerScalar α]

/-- The sender takes no more than an acknowledgment says, and the only ones that it may be given are new
or late. -/
theorem call (h : r.Separate t) {event : FlowEvent} (notReset : event ≠ .reset) {late : List Packet}
    (hLate : ∀ ack ∈ r.late, ack ∈ late)
    (origin : ∀ p now, event = .ack p now → p ∈ r.present.acks ∨ p ∈ late) :
    Separate t { r with present := r.present.call event, late := late } := by
  have ⟨_, hAcked⟩ := r.present.flow.after_keeps notReset
  have hAccounted := h.accounted.after event
  rw [event.kept_of_ne notReset] at hAccounted
  refine
    { h with
      accounted := hAccounted
      taken_sent := fun p hp => ?_
      acked_le := ?_ }
  · obtain ⟨q, hq, hSame⟩ := h.taken_sent p hp
    exact ⟨q, List.mem_append_left _ hq, hSame⟩
  · rcases hAcked with hSame | ⟨p, now, hEvent, hSeq⟩
    · simp only [Exchange.call, hSame]
      exact h.acked_le.imp id fun ⟨ack, hAck, hLe⟩ => ⟨ack, hLate ack hAck, hLe⟩
    · simp only [Exchange.call, hSeq]
      rcases origin p now hEvent with hNew | hOld
      · exact Or.inl (h.acks_le p hNew)
      · exact Or.inr ⟨p, hOld, Nat.le_refl _⟩

/-- One event after the reset. -/
theorem after (h : r.Separate t) (event : RenewalEvent) : (r.after event).Separate t := by
  have hCall {event : FlowEvent} (notReset : event ≠ .reset)
      (origin : ∀ p now, event = .ack p now → p ∈ r.present.acks) :
      Separate t { r with present := r.present.call event } :=
    h.call notReset (fun _ hAck => hAck) fun p now hEvent => Or.inl (origin p now hEvent)
  cases event with
  | present event =>
      cases event with
      | data index feedback now =>
          cases hAt : r.present.sent[index]? with
          | none => simpa only [Renewal.after, Exchange.after, hAt] using h
          | some p =>
              simp only [Renewal.after, Exchange.after, hAt]
              exact h.arrive feedback now (Or.inl (List.mem_of_getElem? hAt))
      | ack index now =>
          cases hAt : r.present.acks[index]? with
          | none => simpa only [Renewal.after, Exchange.after, hAt] using h
          | some ack =>
              simp only [Renewal.after, Exchange.after, hAt]
              refine hCall (by simp) ?_
              rintro p now ⟨⟩
              exact List.mem_of_getElem? hAt
      | send | timer | timeout | limit | close => exact hCall (by simp) (by simp)
  | lateData index feedback now =>
      cases hAt : r.past.sent[index]? with
      | none => simpa only [Renewal.after, hAt] using h
      | some p =>
          simp only [Renewal.after, hAt]
          exact h.arrive feedback now (Or.inr (List.mem_of_getElem? hAt))
  | lateAck index now =>
      cases hAt : r.past.acks[index]? with
      | none => simpa only [Renewal.after, hAt] using h
      | some ack =>
          simp only [Renewal.after, hAt]
          have notReset : FlowEvent.ack ack now ≠ .reset := by simp
          refine h.call notReset (fun _ hOld => List.mem_append_left _ hOld) ?_
          rintro p now ⟨⟩
          exact Or.inr List.mem_concat_self

theorem run (h : r.Separate t) (events : List RenewalEvent) : (r.run events).Separate t := by
  induction events generalizing r with
  | nil => exact h
  | cons event rest ih => exact ih (h.after event)

end Separate

theorem separate_renew [PowerScalar α] {x : Exchange α} (past : ∀ p ∈ x.sent, p.sentAt < t) :
    (x.renew t).Separate t where
  past_lt := past
  reset_eq := rfl
  accounted := .of_start rfl rfl rfl x.flow.controller.tally_reset
  holds := Assembly.holds_empty
  taken_sent := List.forall_mem_nil _
  acks_le := List.forall_mem_nil _
  acked_le := Or.inl (Nat.le_refl 0)

/-- Whatever the network still holds when both ends are reset, and in whatever order it hands out old and
new packets: the receiver counts only packets that left after the reset, and the sender is behind it until
an old acknowledgment arrives. Such a one leads the sender ahead of the receiver exactly if its number is
above the receiver's count and the sender has sent so many packets again. -/
theorem acked_le_cumulative_or_late_ack [PowerScalar α] (x : Exchange α) (t : Instant)
    (past : ∀ p ∈ x.sent, p.sentAt < t) (events : List RenewalEvent) :
    let r := (x.renew t).run events
    let y := r.present
    (y.flow.acked ≤ y.sink.cumulative ∨ ∃ ack ∈ r.late, y.flow.acked ≤ ack.seq) ∧
    y.sink.cumulative ≤ y.flow.nextSeq ∧
    (∀ s < y.sink.cumulative, ∃ p ∈ y.taken, p.seq = s) ∧
    (∀ p ∈ y.taken, ∃ q ∈ y.sent, ∃ feedback, p = q.withFeedback feedback) ∧
    (∀ ack ∈ y.acks, ack.seq ≤ y.sink.cumulative) ∧
    (y.flow.acked ≤ y.sink.cumulative → ∀ ack now,
      ((y.call (.ack ack now)).flow.acked ≤ y.sink.cumulative ↔
        y.flow.Refuses ack ∨ ack.seq ≤ y.sink.cumulative)) := by
  intro r y
  have h : r.Separate t := (separate_renew past).run events
  refine ⟨h.acked_le, h.cumulative_le, fun s hs => List.mem_map.mp (h.holds.below s hs),
    h.taken_sent, h.acks_le, fun hBehind ack now => ?_⟩
  rcases y.flow.acked_after_ack ack now with ⟨hTaken, hNew, hAcked⟩ | ⟨hIdle, hAcked⟩
  · simp only [Exchange.call, hAcked]
    exact (or_iff_right hTaken).symm
  · simp only [Exchange.call, hAcked]
    exact iff_of_true hBehind (hIdle.imp id fun hOld => Nat.le_trans hOld hBehind)

/-- Two packets have arrived and were acknowledged when both ends are reset. An old copy of the second one
comes late and does not count; the first one of the new ones arrives, and is acknowledged. -/
theorem old_data_ignored_after_reset :
    let flow : Flow Float := .withController 1 1000 (.start .standard .standard)
    let x := (Exchange.start flow 40).run [.send 0, .data 0 .initial 100, .data 1 .initial 200]
    let second := Span.millis 1000
    let events := [.present (.send second), .lateData 1 .initial (second + 100),
      .present (.data 0 (.ofCode .high) (second + 200)), .present (.ack 0 (second + 300))]
    let r := (x.renew second).run events
    x.sink.cumulative = 2 ∧ (∀ p ∈ x.sent, p.sentAt < second) ∧ r.late = [] ∧
      r.present.flow.acked = 1 ∧ r.present.flow.acked ≤ r.present.sink.cumulative ∧
      r.present.sink.tally.discarded = 1 ∧
      ∀ s < r.present.sink.cumulative, ∃ p ∈ r.present.taken, p.seq = s := by
  intro flow x second events
  -- With `r` unfolded the general statement matches as it stands, and no run is evaluated for it.
  dsimp only
  have hPast : ∀ p ∈ x.sent, p.sentAt < second := by decide +kernel
  have hLate : ((x.renew second).run events).late = [] := by decide +kernel
  obtain ⟨hAcked, _, hTaken, _⟩ := acked_le_cumulative_or_late_ack x second hPast events
  have hNone : ¬∃ ack ∈ ((x.renew second).run events).late,
      ((x.renew second).run events).present.flow.acked ≤ ack.seq := by simp [hLate]
  exact ⟨by decide +kernel, hPast, hLate, by decide +kernel, hAcked.resolve_right hNone,
    by decide +kernel, hTaken⟩

/-- The old acknowledgment of two packets arrives once two packets have left again. Both count as
acknowledged, and the receiver has not seen either. -/
theorem old_ack_counts_for_new_packets :
    let flow : Flow Float := .withController 1 1000 (.start .standard .standard)
    let x := (Exchange.start flow 40).run
      [.send 0, .data 0 (.ofCode .high) 100, .data 1 (.ofCode .high) 200]
    let second := Span.millis 1000
    let r := (x.renew second).run [.present (.send second), .lateAck 1 (second + 100)]
    Flow.build 1 .standard .standard = .ok flow ∧ (∀ p ∈ x.sent ++ x.acks, p.sentAt < second) ∧
      (∀ p ∈ r.present.sent, second ≤ p.sentAt) ∧
      r.present.flow.acked = 2 ∧ r.present.sink.cumulative = 0 ∧ r.present.taken = [] :=
  ⟨rfl, by decide +kernel, by decide +kernel, by decide +kernel, by decide +kernel, by decide +kernel⟩

end Renewal
end LoadFeedback
