import LoadFeedback.Proofs.Simulation.Traffic
import LoadFeedback.Proofs.Simulation.Periods

/-! What a move does to packets. Beside a course runs a ledger of those that leave the simulation: the
packets that the queue refused, and those that came to a receiver or to a sender. Every move either
leaves the packets where they are, or calls a flow, or hands one packet on. -/
namespace LoadFeedback

/-- The flow that an event is about. -/
def Event.flow? : Event → Option Nat
  | .start id => some id
  | .arrival p | .transmitted p | .delivery p | .ackArrival p => some p.flow
  | .report => none

/-- The packets that have left a simulation, in the order in which they did. -/
structure Ledger where
  /-- Data packets that the queue of the link refused. -/
  lost : List Packet
  /-- Data packets that came to their receiver. -/
  delivered : List Packet
  /-- Acknowledgments that came to their sender. -/
  handed : List Packet

namespace Simulation

variable {α : Type}

/-- The ledger after a move from a state. -/
def entered (s : Simulation α) (l : Ledger) : Move → Ledger
  | .event (.arrival p) _ =>
    if (s.link.enqueue p).1 then l else { l with lost := l.lost ++ [p] }
  | .event (.delivery p) _ => { l with delivered := l.delivered ++ [p] }
  | .event (.ackArrival ack) _ => { l with handed := l.handed ++ [ack] }
  | _ => l

/-- A receiver in its first incarnation answers every data packet. -/
def Answers (s : Simulation α) (event : Event) : Prop :=
  ∀ p session, event = .delivery p → s.session? p.flow = some session →
    session.sink.onData p s.now = (.ok (some (session.sink.answer p s.now)), session.sink.take p)

variable [PowerScalar α]

/-- A course with its ledger. -/
inductive Recorded (s : Simulation α) : List Move → Ledger → Simulation α → Prop where
  | start : Recorded s [] ⟨[], [], []⟩ s
  | next {moves : List Move} {move : Move} {l : Ledger} {t u : Simulation α}
      (prior : Recorded s moves l t) (last : Next t move (.running u)) :
      Recorded s (moves ++ [move]) (t.entered l move) u

/-- The ledger is kept beside a course and steers nothing. -/
theorem Recorded.course {s t : Simulation α} {moves : List Move} {l : Ledger}
    (h : Recorded s moves l t) : Course s moves t := by
  induction h with
  | start => exact .start
  | next prior last ih => exact ih.next last

theorem Course.recorded {s t : Simulation α} {moves : List Move} (course : Course s moves t) :
    ∃ l, Recorded s moves l t := by
  induction course with
  | start => exact ⟨_, .start⟩
  | next prior last ih =>
      obtain ⟨l, hPrior⟩ := ih
      exact ⟨_, hPrior.next last⟩

/-- Everything that an event does, where its flow is there and its receiver answers. -/
inductive Carries (s : Simulation α) : Event → Simulation α → Prop where
  | started {id : Nat} {session : Session α} {packets : List Packet} {flow : Flow α}
      (journal : List (Record α)) (found : s.session? id = some session)
      (call : session.flow.sendMany s.now = (packets, flow)) :
      Carries s (.start id)
        (s.handOver id { session with flow := flow, startedAt := some s.now } packets journal)
  | arrived {p : Packet} {t : Simulation α} (journal : List (Record α))
      (after : t = { s with link := (s.link.enqueue p).2, journal := journal }) :
      Carries s (.arrival p) (if t.linkBusy then t else t.transmit)
  | transmitted {p : Packet} {t : Simulation α}
      (after : t =
        { s with
          transmitted := s.transmitted + p.size.toUInt64
          agenda := s.agenda.push (s.now + s.options.forwardDelay) (.delivery p) }) :
      Carries s (.transmitted p) t.transmit
  | delivered {p : Packet} {session : Session α} (found : s.session? p.flow = some session) :
      Carries s (.delivery p)
        { s.putSession p.flow { session with sink := session.sink.take p } with
          agenda := s.agenda.push (s.now + s.options.reverseDelay)
            (.ackArrival (session.sink.answer p s.now)) }
  | acknowledged {ack : Packet} {session : Session α} {packets : List Packet} {flow : Flow α}
      (journal : List (Record α)) (found : s.session? ack.flow = some session)
      (call : session.flow.onAck ack s.now = (.ok packets, flow)) :
      Carries s (.ackArrival ack)
        (s.handOver ack.flow { session with flow := flow } packets journal)
  | reported (journal : List (Record α)) (utilizations queueLengths : List α) :
      Carries s .report
        { s with
          sessions := s.sessions.map Session.sample
          agenda := s.agenda.push (s.now + Span.millis s.options.reportInterval) .report
          utilizations := utilizations
          queueLengths := queueLengths
          transmitted := 0
          journal := journal }

theorem carries_onEvent {s t : Simulation α} {event : Event}
    (known : ∀ id, event.flow? = some id → ∃ session, s.session? id = some session)
    (answers : s.Answers event) (h : s.onEvent event = (.ok (), t)) : Carries s event t := by
  cases event with
  | start id =>
      obtain ⟨session, hFound⟩ := known id rfl
      obtain ⟨journal, hNext⟩ := handOver_eq hFound
        { session with flow := (session.flow.sendMany s.now).2, startedAt := some s.now }
        (some (.started id)) (session.flow.sendMany s.now).1
      cases h
      simp only [onStart, hFound]
      rw [← noteOption, hNext]
      exact .started journal hFound rfl
  | arrival p =>
      cases h
      unfold onArrival
      dsimp only
      split
      · exact .arrived s.journal rfl
      · obtain ⟨first, hFirst⟩ := noteOption_eq { s with link := (s.link.enqueue p).2 }
          (some (.queueFull p.seq p.flow))
        obtain ⟨journal, hBoth⟩ := noteOption_eq
          { s with link := (s.link.enqueue p).2, journal := first } (some (.dropped p.flow p.seq))
        simp only [noteOption] at hFirst hBoth
        rw [hFirst, hBoth]
        exact .arrived journal rfl
  | transmitted p =>
      obtain ⟨session, hFound⟩ := known p.flow rfl
      have hSame : ({ s with transmitted := s.transmitted + p.size.toUInt64 } :
          Simulation α).session? p.flow = some session := hFound
      cases h
      unfold onTransmitted
      simp only [hSame]
      exact .transmitted rfl
  | delivery p =>
      obtain ⟨session, hFound⟩ := known p.flow rfl
      have hTaken := answers p session rfl hFound
      simp only [onEvent, onDelivery, hFound, hTaken] at h
      cases h
      exact .delivered hFound
  | ackArrival ack =>
      obtain ⟨session, hFound⟩ := known ack.flow rfl
      simp only [onEvent, onAckArrival, hFound] at h
      split at h
      · cases h
      · next packets flow hTaken =>
          cases h
          obtain ⟨journal, hNext⟩ := handOver_eq hFound { session with flow := flow }
            (ackRecord? session.flow flow ack s.now) packets
          rw [hNext]
          exact .acknowledged journal hFound hTaken
  | report =>
      cases h
      obtain ⟨journal, hNote⟩ := s.noteOption_eq (some (.progress s.now s.recentUtilization
        s.link.queue.size s.link.meter.reading.loadFactor
        (s.sessions.map fun session => session.flow.controller.window)))
      rw [noteOption] at hNote
      unfold onReport
      dsimp only
      rw [hNote]
      exact .reported journal _ _

/-- Everything that a move does to packets. The packets of a flow whose timer is delivered set out from
there. -/
inductive Advances (s : Simulation α) : Move → Simulation α → Prop where
  | rested {move : Move} {t : Simulation α} (notEvent : ∀ event now, move ≠ .event event now)
      (now_le : s.now ≤ t.now) (options : t.options = s.options) (agenda : t.agenda = s.agenda)
      (queue : t.link.queue = s.link.queue) (busy : t.linkBusy = s.linkBusy)
      (sessions : t.sessions = s.sessions) : Advances s move t
  | expired {key : TimerKey} {schedule : Schedule} {session : Session α} {packets : List Packet}
      {flow : Flow α} (journal : List (Record α)) (found : s.session? key.owner = some session)
      (call : session.flow.onTimer key.timer s.now = (.ok packets, flow)) :
      Advances s (.timer key s.now)
        ({ s with schedule := schedule }.handOver key.owner { session with flow := flow } packets
          journal)
  | handled {event : Event} {agenda : Agenda Event} {t : Simulation α}
      (due : s.agenda.popDue? s.now = some (event, agenda))
      (carries : Carries { s with agenda := agenda } event t) :
      Advances s (.event event s.now) t

theorem advances_onTimer {s t : Simulation α} {key : TimerKey} {schedule : Schedule}
    (h : ({ s with schedule := schedule } : Simulation α).onTimer key = (.ok (), t)) :
    Advances s (.timer key s.now) t := by
  unfold onTimer at h
  split at h
  · unfold onLinkTimer at h
    split at h
    · cases h
    · next link hTaken =>
        cases h
        obtain ⟨_, rfl⟩ := Prod.mk.inj hTaken
        have hNoted (r : Simulation α) (record : Option (Record α))
            (hNow : r.now = s.now) (hOptions : r.options = s.options) (hAgenda : r.agenda = s.agenda)
            (hQueue : r.link.queue = s.link.queue) (hBusy : r.linkBusy = s.linkBusy)
            (hSessions : r.sessions = s.sessions) :
            Advances s (.timer key s.now) (r.noteOption record).syncLink := by
          obtain ⟨journal, hNote⟩ := noteOption_eq r record
          rw [hNote]
          exact .rested nofun (Nat.le_of_eq hNow.symm) hOptions hAgenda hQueue hBusy hSessions
        exact hNoted _ _ rfl rfl rfl rfl rfl rfl
  · split at h
    · cases h
      exact .rested nofun (Nat.le_refl _) rfl rfl rfl rfl rfl
    · next session hFound =>
        unfold onFlowTimer at h
        split at h
        · cases h
        · next packets flow hTaken =>
            cases h
            obtain ⟨journal, hNext⟩ := handOver_eq hFound { session with flow := flow }
              (timerRecord? session.flow.controller key.timer) packets
            rw [hNext]
            exact .expired journal hFound hTaken

omit [PowerScalar α] in
/-- The next instant at which something is due is not over. -/
theorem Punctual.now_le [Scalar α] {o : Options α} {moves : List Move} {s : Simulation α}
    (h : Punctual o moves s) {now : Instant} (due : s.nextInstant? = some now) : s.now ≤ now := by
  obtain ⟨_, _, ⟨a, hAlarm, rfl⟩ | ⟨event, hPending⟩⟩ := nextInstant?_eq_some h.mirror.ordered due
  · exact (h.timely.timers a.key a.deadline ((h.mirror.mem_iff a).mp hAlarm)).1
  · exact (h.timely.events now event hPending).1

theorem advances_of_next {o : Options α} {moves : List Move} {s t : Simulation α} {move : Move}
    (h : Punctual o moves s)
    (known : ∀ time event id, s.agenda.Pending time event → event.flow? = some id →
      ∃ session, s.session? id = some session)
    (answers : ∀ time event, s.agenda.Pending time event → s.Answers event)
    (last : Next s move (.running t)) : Advances s move t := by
  generalize hResult : Progress.running t = result at last
  cases last with
  | instant turn due inTime =>
      cases hResult
      exact .rested nofun (h.now_le due) rfl rfl rfl rfl rfl
  | timer turn may => exact advances_onTimer (proceed_eq_running hResult.symm)
  | settled | quiet =>
      cases hResult
      exact .rested nofun (Nat.le_refl _) rfl rfl rfl rfl rfl
  | event turn due =>
      obtain ⟨time, hPending, _⟩ := Agenda.popDue?_eq_some due
      exact .handled due (carries_onEvent (fun id hFlow => known time _ id hPending hFlow)
        (answers time _ hPending) (proceed_eq_running hResult.symm))

end Simulation
end LoadFeedback
