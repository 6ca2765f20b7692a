import LoadFeedback.Proofs.Flow.Continuation
import LoadFeedback.Simulation.Run

/-! What one timer or one event makes of a simulation, if nothing is refused. Three handlers call a
flow, and all of them go on in the same way: the packets set out, and the deadlines of the flow are
copied. Later modules open no handler again. -/
namespace LoadFeedback.Simulation

variable {α : Type}

theorem session?_putSession {s : Simulation α} {id : Nat} {old : Session α}
    (found : s.session? id = some old) (new : Session α) (other : Nat) :
    (s.putSession id new).session? other = if other = id then some new else s.session? other := by
  cases id with
  | zero => cases found
  | succ i =>
      cases other with
      | zero => rfl
      | succ j =>
          have hPlace : i < s.sessions.length := (List.getElem?_eq_some_iff.mp found).1
          simp only [session?, putSession, Nat.add_sub_cancel, List.getElem?_set, hPlace, ↓reduceIte,
            Nat.add_right_cancel_iff, eq_comm]

theorem ne_linkOwner_of_session? {s : Simulation α} {id : Nat} {session : Session α}
    (found : s.session? id = some session) : id ≠ linkOwner := by
  rintro rfl
  cases found

/-- A flow was called: its session is replaced, its packets set out, and its deadlines are copied. -/
def handOver (s : Simulation α) (id : Nat) (session : Session α) (packets : List Packet)
    (journal : List (Record α)) : Simulation α :=
  { s.putSession id session with
    agenda := packets.foldl
      (fun agenda p => agenda.push (s.now + s.options.forwardDelay) (.arrival p)) s.agenda
    schedule := copyDeadlines s.schedule id flowTimers session.flow.deadline?
    journal := journal }

theorem noteOption_eq (s : Simulation α) (record : Option (Record α)) :
    ∃ journal, s.noteOption record = { s with journal := journal } := by
  cases record with
  | none => exact ⟨s.journal, rfl⟩
  | some record =>
      simp only [noteOption, note]
      split
      · exact ⟨record :: s.journal, rfl⟩
      · exact ⟨s.journal, rfl⟩

theorem launch_eq (s : Simulation α) (packets : List Packet) : s.launch packets =
    { s with
      agenda := packets.foldl
        (fun agenda p => agenda.push (s.now + s.options.forwardDelay) (.arrival p)) s.agenda } := by
  induction packets generalizing s with
  | nil => rfl
  | cons p rest ih => exact ih (s.later s.options.forwardDelay (.arrival p))

theorem syncFlow_eq {s : Simulation α} {id : Nat} {session : Session α}
    (found : s.session? id = some session) : s.syncFlow id =
      { s with schedule := copyDeadlines s.schedule id flowTimers session.flow.deadline? } := by
  simp only [syncFlow, found]

theorem handOver_eq {s : Simulation α} {id : Nat} {old : Session α}
    (found : s.session? id = some old) (session : Session α) (record : Option (Record α))
    (packets : List Packet) :
    ∃ journal, (((s.putSession id session).noteOption record).launch packets).syncFlow id =
      s.handOver id session packets journal := by
  obtain ⟨journal, hNote⟩ := (s.putSession id session).noteOption_eq record
  have hSession : (s.putSession id session).session? id = some session := by
    rw [session?_putSession found, if_pos rfl]
  refine ⟨journal, ?_⟩
  rw [hNote, launch_eq]
  exact syncFlow_eq hSession

section

variable [Scalar α]

/-- Everything that the delivery of a timer can do, if it is not refused. -/
inductive Delivers (s : Simulation α) : TimerKey → Simulation α → Prop where
  | link {timer : Timer} {link : LinkQueue α} (journal : List (Record α))
      (taken : s.link.onTimer timer s.now = (.ok (), link)) :
      Delivers s ⟨linkOwner, timer⟩
        { s with
          link := link
          schedule := copyDeadlines s.schedule linkOwner linkTimers link.meter.deadline?
          journal := journal }
  | flow {id : Nat} {timer : Timer} {session next : Session α} {packets : List Packet}
      (journal : List (Record α)) (found : s.session? id = some session)
      (sink : next.sink = session.sink)
      (continues : session.flow.Continues s.now packets next.flow) :
      Delivers s ⟨id, timer⟩ (s.handOver id next packets journal)
  | ignored {key : TimerKey} (notLink : key.owner ≠ linkOwner) (nobody : s.session? key.owner = none) :
      Delivers s key s

theorem delivers_onTimer {s t : Simulation α} {key : TimerKey} (h : s.onTimer key = (.ok (), t)) :
    Delivers s key t := by
  obtain ⟨owner, timer⟩ := key
  unfold onTimer at h
  dsimp only at h
  split at h
  · next hOwner =>
      subst hOwner
      unfold onLinkTimer at h
      split at h
      · cases h
      · next link hTaken =>
          cases h
          have hNoted (record : Option (Record α)) : Delivers s ⟨linkOwner, timer⟩
              ({ s with link := link }.noteOption record).syncLink := by
            obtain ⟨journal, hNote⟩ := noteOption_eq { s with link := link } record
            rw [hNote]
            exact .link journal hTaken
          exact hNoted _
  · next hOwner =>
      split at h
      · next hNobody =>
          cases h
          exact .ignored hOwner hNobody
      · next session hFound =>
          unfold onFlowTimer at h
          split at h
          · cases h
          · next packets flow hTaken =>
              cases h
              obtain ⟨journal, hNext⟩ := handOver_eq hFound { session with flow := flow }
                (timerRecord? session.flow.controller timer) packets
              rw [hNext]
              exact .flow journal hFound rfl (Flow.continues_onTimer hTaken)

theorem transmit_cases (s : Simulation α) :
    (s.link.dequeue? = none ∧ s.transmit = { s with linkBusy := false }) ∨
    ∃ packet link, s.link.dequeue? = some (packet, link) ∧ s.transmit =
      { s with
        link := link
        linkBusy := true
        agenda := s.agenda.push (s.now + s.options.transmissionTime packet.size)
          (.transmitted packet) } := by
  unfold transmit
  split
  · next hNone => exact Or.inl ⟨hNone, rfl⟩
  · next packet link hSome => exact Or.inr ⟨packet, link, hSome, rfl⟩

end

variable [PowerScalar α]

/-- Everything that an event can do, if it is not refused. -/
inductive Handles (s : Simulation α) : Event → Simulation α → Prop where
  | called {event : Event} {id : Nat} {session next : Session α} {packets : List Packet}
      (journal : List (Record α)) (found : s.session? id = some session)
      (sink : next.sink = session.sink)
      (continues : session.flow.Continues s.now packets next.flow) :
      Handles s event (s.handOver id next packets journal)
  | queued {p : Packet} {t : Simulation α} (journal : List (Record α))
      (after : t = { s with link := (s.link.enqueue p).2, journal := journal }) :
      Handles s (.arrival p) (if t.linkBusy then t else t.transmit)
  | transmitted {p : Packet} {t : Simulation α}
      (after : t = { s with transmitted := s.transmitted + p.size.toUInt64 } ∨
        t = { s with
          transmitted := s.transmitted + p.size.toUInt64
          agenda := s.agenda.push (s.now + s.options.forwardDelay) (.delivery p) }) :
      Handles s (.transmitted p) t.transmit
  | delivered {p : Packet} {session : Session α} {sink : Sink}
      (found : s.session? p.flow = some session)
      (taken : session.sink.onData p s.now = (.ok none, sink)) :
      Handles s (.delivery p) (s.putSession p.flow { session with sink := sink })
  | answered {p ack : Packet} {session : Session α} {sink : Sink}
      (found : s.session? p.flow = some session)
      (taken : session.sink.onData p s.now = (.ok (some ack), sink)) :
      Handles s (.delivery p)
        { s.putSession p.flow { session with sink := sink } with
          agenda := s.agenda.push (s.now + s.options.reverseDelay) (.ackArrival ack) }
  | reported (journal : List (Record α)) (utilizations queueLengths : List α) :
      Handles s .report
        { s with
          sessions := s.sessions.map Session.sample
          agenda := s.agenda.push (s.now + Span.millis s.options.reportInterval) .report
          utilizations := utilizations
          queueLengths := queueLengths
          transmitted := 0
          journal := journal }
  /-- The flow is not there. -/
  | ignored (event : Event) : Handles s event s

theorem handles_onEvent {s t : Simulation α} {event : Event} (h : s.onEvent event = (.ok (), t)) :
    Handles s event t := by
  cases event with
  | start id =>
      cases h
      unfold onStart
      split
      · exact .ignored _
      · next session hFound =>
          obtain ⟨journal, hNext⟩ := handOver_eq hFound
            { session with flow := (session.flow.sendMany s.now).2, startedAt := some s.now }
            (some (.started id)) (session.flow.sendMany s.now).1
          dsimp only
          rw [← noteOption, hNext]
          exact .called journal hFound rfl (session.flow.continues_sendMany s.now)
  | arrival p =>
      cases h
      unfold onArrival
      dsimp only
      split
      · exact .queued s.journal rfl
      · obtain ⟨first, hFirst⟩ := noteOption_eq { s with link := (s.link.enqueue p).2 }
          (some (.queueFull p.seq p.flow))
        obtain ⟨journal, hBoth⟩ := noteOption_eq
          { s with link := (s.link.enqueue p).2, journal := first } (some (.dropped p.flow p.seq))
        simp only [noteOption] at hFirst hBoth
        rw [hFirst, hBoth]
        exact .queued journal rfl
  | transmitted p =>
      cases h
      unfold onTransmitted
      dsimp only
      split
      · exact .transmitted (Or.inl rfl)
      · exact .transmitted (Or.inr rfl)
  | delivery p =>
      simp only [onEvent, onDelivery] at h
      split at h
      · cases h
        exact .ignored _
      · next session hFound =>
          split at h
          · cases h
          · next answer sink hTaken =>
              cases answer with
              | none =>
                  cases h
                  exact .delivered hFound hTaken
              | some ack =>
                  cases h
                  exact .answered hFound hTaken
  | ackArrival ack =>
      simp only [onEvent, onAckArrival] at h
      split at h
      · cases h
        exact .ignored _
      · next session hFound =>
          split at h
          · cases h
          · next packets flow hTaken =>
              cases h
              obtain ⟨journal, hNext⟩ := handOver_eq hFound { session with flow := flow }
                (ackRecord? session.flow flow ack s.now) packets
              rw [hNext]
              exact .called journal hFound rfl (Flow.continues_onAck hTaken)
  | report =>
      cases h
      obtain ⟨journal, hNote⟩ := s.noteOption_eq (some (.progress s.now s.recentUtilization
        s.link.queue.size s.link.meter.reading.loadFactor
        (s.sessions.map fun session => session.flow.controller.window)))
      unfold onReport
      dsimp only
      rw [← noteOption, hNote]
      exact .reported journal _ _

end LoadFeedback.Simulation
