import Mathlib.Data.List.Perm.Basic
import LoadFeedback.Proofs.Agenda.Weight
import LoadFeedback.Proofs.Simulation.Conveyance

/-! How many events can still follow. A number that a flow has not used yet stands for the four events
on the way of its packet and of the acknowledgment, a packet that waits or is on its way for those still
ahead of it. Reports go on until the end. So each event takes away from this work, and nothing adds to
it, as long as the next report lies ahead. -/
namespace LoadFeedback

/-- How many events can follow from an event that is to come, itself included. -/
def Event.work (endsAt time : Instant) : Event → Nat
  | .arrival _ => 4
  | .transmitted _ => 3
  | .delivery _ => 2
  | .start _ | .ackArrival _ => 1
  | .report => endsAt + 1 - time

/-- The later the next report, the fewer are still to come. -/
theorem Event.work_report_lt {endsAt time later : Instant} (inTime : time ≤ endsAt)
    (isLater : time < later) : report.work endsAt later < report.work endsAt time :=
  Nat.sub_lt_sub_left (Nat.lt_succ_of_le inTime) isLater

namespace Simulation

variable {α : Type} {s t : Simulation α}

/-- How many packets all flows together can still send. -/
def room (s : Simulation α) : Nat :=
  (s.sessions.map fun session => Flow.maxSeq - session.flow.nextSeq).sum

/-- How many events can still follow. -/
def work (s : Simulation α) : Nat :=
  4 * s.room + 3 * s.link.queue.toList.length + s.agenda.weigh (Event.work s.endsAt)

theorem work_congr (sessions : t.sessions = s.sessions) (queue : t.link.queue = s.link.queue)
    (agenda : t.agenda = s.agenda) (options : t.options = s.options) : t.work = s.work := by
  simp only [work, room, endsAt, sessions, queue, agenda, options]

theorem room_putSession {id : Nat} {session : Session α} (found : s.session? id = some session)
    (next : Session α) :
    (s.putSession id next).room + (Flow.maxSeq - session.flow.nextSeq) =
      s.room + (Flow.maxSeq - next.flow.nextSeq) := by
  cases id with
  | zero => cases found
  | succ i =>
      obtain ⟨hPlace, rfl⟩ := List.getElem?_eq_some_iff.mp found
      have hBefore := (List.getElem_cons_eraseIdx_perm hPlace).map
        fun session => Flow.maxSeq - session.flow.nextSeq
      have hAfter := (List.set_perm_cons_eraseIdx hPlace next).map
        fun session => Flow.maxSeq - session.flow.nextSeq
      have hBeforeSum := hBefore.sum_nat
      have hAfterSum := hAfter.sum_nat
      rw [List.map_cons, List.sum_cons] at hBeforeSum hAfterSum
      simp only [room, putSession, Nat.add_sub_cancel]
      omega

theorem room_sampled (h : t.sessions = s.sessions.map Session.sample) : t.room = s.room := by
  rw [room, h, List.map_map, room]
  rfl

/-- Packets that set out are as much work as their numbers were. -/
theorem work_handOver (numbered : s.agenda.Numbered) {id : Nat} {session next : Session α}
    (found : s.session? id = some session) {packets : List Packet}
    (numbers : next.flow.nextSeq = session.flow.nextSeq + packets.length)
    (bounded : next.flow.nextSeq ≤ Flow.maxSeq) (journal : List (Record α)) :
    (s.handOver id next packets journal).work = s.work := by
  have hRoom := room_putSession found next
  have hArrival (p : Packet) :
      Event.work s.endsAt (s.now + s.options.forwardDelay) (.arrival p) = 4 := rfl
  have hAgenda : (s.handOver id next packets journal).agenda.weigh (Event.work s.endsAt) =
      4 * packets.length + s.agenda.weigh (Event.work s.endsAt) :=
    Agenda.weigh_foldl_push hArrival numbered packets
  have hSame : (s.handOver id next packets journal).room = (s.putSession id next).room := rfl
  have hWork : (s.handOver id next packets journal).work =
      4 * (s.handOver id next packets journal).room + 3 * s.link.queue.toList.length +
        (s.handOver id next packets journal).agenda.weigh (Event.work s.endsAt) := rfl
  rw [hWork, hAgenda, hSame, work]
  omega

/-- A packet that begins to be sent has the same events ahead of it. -/
theorem work_transmit [Scalar α] (numbered : s.agenda.Numbered) : s.transmit.work = s.work := by
  rcases s.transmit_cases with ⟨_, hIdle⟩ | ⟨p, link, hHead, hNext⟩
  · rw [hIdle]
    rfl
  · obtain ⟨head, hQueue, _⟩ := MeteredQueue.queue_of_dequeue? hHead
    have hList := (DropTail.dequeue?_eq_some hQueue).1
    have hPush := Agenda.weigh_push (Event.work s.endsAt) numbered
      (s.now + s.options.transmissionTime p.size) (.transmitted p)
    rw [hNext]
    simp only [work, room, endsAt] at hPush ⊢
    rw [hPush, hList, List.length_cons, Event.work]
    omega

section

variable [PowerScalar α]

/-- The packets of a call set out with the next numbers. -/
theorem work_called (numbered : s.agenda.Numbered) {id : Nat} {session next : Session α}
    (found : s.session? id = some session) {event : FlowEvent} {packets : List Packet}
    (call : session.flow.after event = (packets, next.flow)) (notReset : event ≠ .reset)
    (journal : List (Record α))
    (bounded : ∀ other last, (s.handOver id next packets journal).session? other = some last →
      last.flow.nextSeq ≤ Flow.maxSeq) :
    (s.handOver id next packets journal).work = s.work := by
  have hNumbers := (session.flow.numbers_after notReset).2
  rw [call] at hNumbers
  have hFound : (s.handOver id next packets journal).session? id = some next := by
    rw [session?_handOver found, if_pos rfl]
  exact work_handOver numbered found hNumbers (bounded id next hFound) journal

/-- An event that comes out leaves less work than there was with it. -/
theorem Carries.work {event : Event} (step : Carries s event t) (numbered : s.agenda.Numbered)
    (bounded : ∀ id session, t.session? id = some session → session.flow.nextSeq ≤ Flow.maxSeq)
    (interval : 0 < s.options.reportInterval) {time : Instant} (due : time ≤ s.now)
    (inTime : s.now ≤ s.endsAt) : t.work < event.work s.endsAt time + s.work := by
  cases step with
  | @started id session packets flow journal found call =>
      have hCall : session.flow.after (.send s.now) = (packets, flow) := call
      rw [work_called numbered found hCall (by simp) journal bounded, Event.work]
      omega
  | @arrived p t journal after =>
      have hQueued : t.agenda.Numbered ∧ t.work ≤ 3 + s.work := by
        subst after
        refine ⟨numbered, ?_⟩
        rcases s.link.queue.enqueue_cases p with ⟨_, hList, _⟩ | ⟨_, hList, _⟩
        · have hTaken : (s.link.enqueue p).2.queue.toList = s.link.queue.toList ++ [p] := hList
          simp only [Simulation.work, room, endsAt, hTaken, List.length_append, List.length_singleton]
          omega
        · have hRefused : (s.link.enqueue p).2.queue.toList = s.link.queue.toList := hList
          simp only [Simulation.work, room, endsAt, hRefused]
          omega
      obtain ⟨hNumbered, hWork⟩ := hQueued
      rw [Event.work]
      split
      · omega
      · rw [work_transmit hNumbered]
        omega
  | @transmitted p t after =>
      have hSent : t.agenda.Numbered ∧ t.work = 2 + s.work := by
        subst after
        refine ⟨numbered.push _ _, ?_⟩
        have hPush := Agenda.weigh_push (Event.work s.endsAt) numbered
          (s.now + s.options.forwardDelay) (.delivery p)
        simp only [Simulation.work, room, endsAt] at hPush ⊢
        rw [hPush, Event.work]
        omega
      obtain ⟨hNumbered, hWork⟩ := hSent
      rw [work_transmit hNumbered, hWork, Event.work]
      omega
  | @delivered p session found =>
      have hRoom := room_putSession found { session with sink := session.sink.take p }
      have hPush := Agenda.weigh_push (Event.work s.endsAt) numbered
        (s.now + s.options.reverseDelay) (.ackArrival (session.sink.answer p s.now))
      simp only [Simulation.work, room, endsAt, putSession] at hRoom hPush ⊢
      rw [hPush, Event.work, Event.work]
      omega
  | @acknowledged ack session packets flow journal found call =>
      have hCall : session.flow.after (.ack ack s.now) = (packets, flow) := by
        rw [Flow.after, call]
        rfl
      rw [work_called numbered found hCall (by simp) journal bounded, Event.work]
      omega
  | reported journal =>
      have hRoom := room_sampled (s := s) (t := { s with sessions := s.sessions.map Session.sample }) rfl
      have hPush := Agenda.weigh_push (Event.work s.endsAt) numbered
        (s.now + Span.millis s.options.reportInterval) .report
      have hSpan : 0 < Span.millis s.options.reportInterval := Nat.mul_pos interval (by decide)
      have hLater := Nat.lt_of_le_of_lt due (Nat.lt_add_of_pos_right hSpan)
      have hLess := Event.work_report_lt (Nat.le_trans due inTime) hLater
      simp only [Simulation.work, room, endsAt] at hRoom hPush hLess ⊢
      rw [hPush, hRoom]
      omega

/-- No move adds to the work, and an event takes away from it. -/
theorem Advances.work {move : Move} (step : Advances s move t) (numbered : s.agenda.Numbered)
    (bounded : ∀ id session, t.session? id = some session → session.flow.nextSeq ≤ Flow.maxSeq)
    (interval : 0 < s.options.reportInterval) (inTime : s.now ≤ s.endsAt) :
    t.work ≤ s.work ∧ ∀ event now, move = .event event now → t.work < s.work := by
  cases step with
  | rested notEvent now_le options agenda queue busy sessions =>
      exact ⟨Nat.le_of_eq (work_congr sessions queue agenda options),
        fun event now hEvent => absurd hEvent (notEvent event now)⟩
  | @expired key schedule session packets flow journal found call =>
      have hCall : session.flow.after (.timer key.timer s.now) = (packets, flow) := by
        rw [Flow.after, call]
        rfl
      have hSame := work_called (s := { s with schedule := schedule }) numbered found hCall
        (by simp) journal bounded
      refine ⟨Nat.le_of_eq hSame, fun event now hEvent => ?_⟩
      cases hEvent
  | @handled event agenda t due carries =>
      obtain ⟨time, hDue, hOut⟩ := Agenda.weigh_popDue? (Event.work s.endsAt) due
      have hLess := carries.work (numbered.popDue? due) bounded interval hDue inTime
      have hBefore : s.work =
          event.work s.endsAt time + ({ s with agenda := agenda } : Simulation α).work := by
        simp only [Simulation.work, room, endsAt] at hOut ⊢
        omega
      have hWork : t.work < s.work := Nat.lt_of_lt_of_eq hLess hBefore.symm
      exact ⟨Nat.le_of_lt hWork, fun _ _ _ => hWork⟩

end

end Simulation
end LoadFeedback
