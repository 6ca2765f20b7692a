import LoadFeedback.Proofs.Feedback
import LoadFeedback.Proofs.Link.Departures
import LoadFeedback.Proofs.Receiver.Sink
import LoadFeedback.Proofs.Simulation.Components

/-! The packets of a simulation, wherever they are: in the queue of the link, or in an event to come.
A data packet carries a number that its flow has given out, so no receiver acknowledges more than was
sent, and under the coded law every packet carries a code from its sender to the link, to its receiver
and back. -/
namespace LoadFeedback.Simulation

variable {α : Type}

/-- A data packet on its way. -/
structure Travels (s : Simulation α) (p : Packet) : Prop where
  isData : p.isData = true
  sent : ∀ f, s.flow? p.flow = some f → p.seq < f.nextSeq
  coded : s.options.law = .coded → p.feedback.code? ≠ none

/-- An acknowledgment on its way back. -/
structure Returns (s : Simulation α) (ack : Packet) : Prop where
  isAck : ack.isData = false
  sent : ∀ f, s.flow? ack.flow = some f → ack.seq ≤ f.nextSeq
  coded : s.options.law = .coded → ack.feedback.code? ≠ none

/-- The packet that an event brings is on its way. -/
def Brings (s : Simulation α) : Event → Prop
  | .arrival p | .transmitted p | .delivery p => s.Travels p
  | .ackArrival ack => s.Returns ack
  | .start _ | .report => True

/-- Nothing but packets on their way, and receivers that got no others. -/
structure Orderly (s : Simulation α) : Prop where
  queued : ∀ p ∈ s.link.queue.toList, s.Travels p
  pending : ∀ time event, s.agenda.Pending time event → s.Brings event
  receivers : ∀ id session, s.session? id = some session →
    session.sink.Receives session.flow.nextSeq

/-- No flow takes back a number. -/
structure Counts (s t : Simulation α) : Prop where
  options_eq : t.options = s.options
  nextSeq_le : ∀ id g, t.flow? id = some g → ∃ f, s.flow? id = some f ∧ f.nextSeq ≤ g.nextSeq

theorem Serves.counts {s t : Simulation α} (step : Serves s t) : s.Counts t where
  options_eq := step.options_eq
  nextSeq_le id g hg := by
    obtain ⟨f, packets, hf, hStep⟩ := step.flow id g hg
    exact ⟨f, hf, hStep.nextSeq_le⟩

namespace Counts

variable {s t : Simulation α}

theorem of_same (hOptions : t.options = s.options) (hSessions : t.sessions = s.sessions) :
    s.Counts t where
  options_eq := hOptions
  nextSeq_le id g hg := ⟨g, (flow?_congr hSessions id).symm.trans hg, Nat.le_refl _⟩

theorem travels (step : s.Counts t) {p : Packet} (h : s.Travels p) : t.Travels p where
  isData := h.isData
  sent g hg := by
    obtain ⟨f, hf, hLe⟩ := step.nextSeq_le p.flow g hg
    exact Nat.lt_of_lt_of_le (h.sent f hf) hLe
  coded hLaw := h.coded (step.options_eq ▸ hLaw)

theorem returns (step : s.Counts t) {ack : Packet} (h : s.Returns ack) : t.Returns ack where
  isAck := h.isAck
  sent g hg := by
    obtain ⟨f, hf, hLe⟩ := step.nextSeq_le ack.flow g hg
    exact Nat.le_trans (h.sent f hf) hLe
  coded hLaw := h.coded (step.options_eq ▸ hLaw)

theorem brings (step : s.Counts t) {event : Event} (h : s.Brings event) : t.Brings event := by
  cases event with
  | arrival p | transmitted p | delivery p => exact step.travels h
  | ackArrival ack => exact step.returns h
  | start id | report => trivial

end Counts

namespace Orderly

variable {s t : Simulation α}

/-- Whatever was on its way stays so. It remains to look at what is new in the queue, in the agenda,
and in the receivers. -/
theorem step (h : s.Orderly) (counts : s.Counts t)
    (queued : ∀ p ∈ t.link.queue.toList, p ∈ s.link.queue.toList ∨ t.Travels p)
    (pending : ∀ time event, t.agenda.Pending time event →
      s.agenda.Pending time event ∨ t.Brings event)
    (receivers : ∀ id session, t.session? id = some session →
      (∃ old, s.session? id = some old ∧ session.sink = old.sink) ∨
        session.sink.Receives session.flow.nextSeq) : t.Orderly where
  queued p hp := (queued p hp).elim (fun hOld => counts.travels (h.queued p hOld)) id
  pending time event hPending :=
    (pending time event hPending).elim (fun hOld => counts.brings (h.pending time event hOld)) id
  receivers id session hFound := by
    rcases receivers id session hFound with ⟨old, hOld, hSink⟩ | hNew
    · obtain ⟨f, hf, hLe⟩ := counts.nextSeq_le id session.flow (flow?_of_session? hFound)
      rw [flow?_of_session? hOld] at hf
      cases hf
      exact hSink ▸ (h.receivers id old hOld).mono hLe
    · exact hNew

/-- The sessions stay, and what comes into the queue and into the agenda is on its way already. -/
theorem carry (h : s.Orderly) (hOptions : t.options = s.options)
    (hSessions : t.sessions = s.sessions)
    (queued : ∀ p ∈ t.link.queue.toList, p ∈ s.link.queue.toList ∨ s.Travels p)
    (pending : ∀ time event, t.agenda.Pending time event →
      s.agenda.Pending time event ∨ s.Brings event) : t.Orderly := by
  have hCounts := Counts.of_same hOptions hSessions
  refine h.step hCounts (fun p hp => (queued p hp).imp_right hCounts.travels)
    (fun time event hPending => (pending time event hPending).imp_right hCounts.brings)
    fun id session hFound => Or.inl ⟨session, ?_, rfl⟩
  simpa only [session?, hSessions] using hFound

/-- The clock, the schedule and the meter carry no packets. -/
theorem congr (h : s.Orderly) (hOptions : t.options = s.options)
    (hSessions : t.sessions = s.sessions) (hQueue : t.link.queue = s.link.queue)
    (hAgenda : t.agenda = s.agenda) : t.Orderly :=
  h.carry hOptions hSessions (fun _ hp => Or.inl (hQueue ▸ hp)) fun _ _ hPending =>
    Or.inl (hAgenda ▸ hPending)

theorem push (h : s.Orderly) {time : Instant} {event : Event} (brings : s.Brings event) :
    Orderly { s with agenda := s.agenda.push time event } := by
  refine h.carry rfl rfl (fun _ hp => Or.inl hp) fun later other hPending => ?_
  rcases Agenda.pending_push hPending with ⟨_, rfl⟩ | hOld
  · exact Or.inr brings
  · exact Or.inl hOld

/-- The link takes a packet, or drops it. -/
theorem enqueue (h : s.Orderly) {p : Packet} (travels : s.Travels p) :
    Orderly { s with link := (s.link.enqueue p).2 } := by
  refine h.carry rfl rfl (fun q hq => ?_) fun _ _ hPending => Or.inl hPending
  rcases FifoQueue.mem_enqueue (q := s.link.queue) hq with hOld | rfl
  · exact Or.inl hOld
  · exact Or.inr travels

/-- A packet leaves with a stamp, which is a code where codes are wanted. -/
theorem transmit [Scalar α] (h : s.Orderly) (fit : LinkFit s.options s.link.meter) :
    s.transmit.Orderly := by
  rcases s.transmit_cases with ⟨_, hIdle⟩ | ⟨p, link, hHead, hNext⟩
  · rw [hIdle]
    exact h.congr rfl rfl rfl rfl
  · rw [hNext]
    obtain ⟨head, hFirst, rfl⟩ := MeteredQueue.dequeue?_eq_some hHead
    have hQueue : s.link.queue.toList = head :: link.queue.toList := hFirst
    have hWaited : s.Travels head := h.queued head (hQueue ▸ List.mem_cons_self)
    have hStamped := Packet.stamped_of_data hWaited.isData s.link.meter.reading.feedback
    have hTravels : s.Travels (s.link.meter.stamp head) := by
      rw [Meter.stamp, hStamped]
      exact ⟨hWaited.isData, hWaited.sent, fun hLaw =>
        FeedbackField.code?_severest (hWaited.coded hLaw) (fit.publishes hLaw).2⟩
    refine h.carry rfl rfl (fun q hq => Or.inl ?_) fun time event hPending => ?_
    · exact hQueue ▸ List.mem_cons_of_mem _ hq
    · rcases Agenda.pending_push hPending with ⟨_, rfl⟩ | hOld
      · exact Or.inr hTravels
      · exact Or.inl hOld

/-- What a flow sends has its number, and the number of a packet that it has counted. -/
theorem handOver (h : s.Orderly) {id : Nat} {session next : Session α} {packets : List Packet}
    (found : s.session? id = some session) (number : session.flow.id = id)
    (sink : next.sink = session.sink)
    (continues : session.flow.Continues s.now packets next.flow) (journal : List (Record α)) :
    (s.handOver id next packets journal).Orderly := by
  refine h.step (Serves.of_handOver found continues journal).counts (fun _ hp => Or.inl hp)
    (fun time event hPending => ?_) fun other last hFound => Or.inl ?_
  · rcases Agenda.pending_foldl_push hPending with ⟨_, p, hp, rfl⟩ | hOld
    · obtain ⟨hFlow, hData, hFeedback, hSeq⟩ := continues.sent p hp
      refine Or.inr ⟨hData, fun f hf => ?_, fun _ => ?_⟩
      · rw [hFlow, number, flow?_handOver found, if_pos rfl] at hf
        cases hf
        exact hSeq
      · rw [hFeedback]
        decide
    · exact Or.inl hOld
  · change (s.putSession id next).session? other = some last at hFound
    rw [session?_putSession found] at hFound
    split at hFound
    · next hEq =>
        cases hFound
        exact ⟨session, hEq ▸ found, sink⟩
    · exact ⟨last, hFound, rfl⟩

/-- A receiver that takes a data packet has still got only numbers that its flow has given out. -/
theorem receive (h : s.Orderly) {p : Packet} {session : Session α} {sink : Sink}
    (found : s.session? p.flow = some session) (receives : sink.Receives session.flow.nextSeq) :
    (s.putSession p.flow { session with sink := sink }).Orderly := by
  have hServes : Serves s (s.putSession p.flow { session with sink := sink }) :=
    .of_same rfl rfl rfl (flow?_putSession found sink)
  refine h.step hServes.counts (fun _ hp => Or.inl hp) (fun _ _ hPending => Or.inl hPending)
    fun other last hFound => ?_
  rw [session?_putSession found] at hFound
  split at hFound
  · cases hFound
    exact Or.inr receives
  · exact Or.inl ⟨last, hFound, rfl⟩

/-- A report looks at windows only. -/
theorem sample (h : s.Orderly) : Orderly { s with sessions := s.sessions.map Session.sample } := by
  have hServes : Serves s { s with sessions := s.sessions.map Session.sample } :=
    .of_same rfl rfl rfl (flow?_sampled rfl)
  refine h.step hServes.counts (fun _ hp => Or.inl hp) (fun _ _ hPending => Or.inl hPending)
    fun id session hFound => Or.inl ?_
  rw [session?_sampled rfl] at hFound
  obtain ⟨old, hOld, rfl⟩ := Option.map_eq_some_iff.mp hFound
  exact ⟨old, hOld, rfl⟩

/-- An event that comes out brings a packet that is on its way. -/
theorem popDue? (h : s.Orderly) {event : Event} {agenda : Agenda Event}
    (due : s.agenda.popDue? s.now = some (event, agenda)) :
    Orderly { s with agenda := agenda } ∧ Brings { s with agenda := agenda } event := by
  obtain ⟨time, hPending, _, hRest⟩ := Agenda.popDue?_eq_some due
  have hCounts : s.Counts { s with agenda := agenda } := .of_same rfl rfl
  refine ⟨?_, hCounts.brings (h.pending time event hPending)⟩
  exact h.carry rfl rfl (fun _ hp => Or.inl hp) fun later other hOther =>
    Or.inl (hRest later other hOther)

end Orderly

/-- The answer to a packet acknowledges no more than its flow has sent. -/
theorem Travels.returns {s : Simulation α} {p : Packet} (h : s.Travels p) {session : Session α}
    (found : s.session? p.flow = some session)
    (receives : session.sink.Receives session.flow.nextSeq) :
    s.Returns (session.sink.answer p s.now) where
  isAck := rfl
  sent f hf := by
    have hSeq := h.sent session.flow (flow?_of_session? found)
    have hFlow := hf.symm.trans (flow?_of_session? found)
    cases hFlow
    exact (receives.take hSeq).cumulative_le
  coded := h.coded

section

variable {s t : Simulation α}

theorem Delivers.orderly [Scalar α] {key : TimerKey} (step : Delivers s key t) (h : s.Orderly)
    (fit : s.Fit) : t.Orderly := by
  cases step with
  | link journal taken =>
      obtain ⟨_, rfl⟩ := Prod.mk.inj taken
      exact h.congr rfl rfl rfl rfl
  | flow journal found sink continues =>
      have hNumber := (fit.flow _ _ (flow?_of_session? found)).id_eq
      exact h.handOver found hNumber sink continues journal
  | ignored => exact h

variable [PowerScalar α]

theorem Handles.orderly {event : Event} (step : Handles s event t) (h : s.Orderly) (fit : s.Fit)
    (brings : s.Brings event) : t.Orderly := by
  cases step with
  | called journal found sink continues =>
      have hNumber := (fit.flow _ _ (flow?_of_session? found)).id_eq
      exact h.handOver found hNumber sink continues journal
  | @queued p t journal after =>
      have hQueued : t.Orderly := by
        subst after
        exact (h.enqueue brings).congr rfl rfl rfl rfl
      split
      · exact hQueued
      · refine hQueued.transmit ?_
        subst after
        exact fit.link.onArrival p.size
  | @transmitted p t after =>
      have hDelivery : s.Brings (.delivery p) := brings
      have hSent : t.Orderly := by
        rcases after with rfl | rfl
        · exact h.congr rfl rfl rfl rfl
        · exact (h.push hDelivery).congr rfl rfl rfl rfl
      refine hSent.transmit ?_
      rcases after with rfl | rfl <;> exact fit.link
  | @delivered p session sink found taken =>
      have hReceives := h.receivers p.flow session found
      rw [hReceives.onData brings.isData] at taken
      cases taken
  | @answered p ack session sink found taken =>
      have hReceives := h.receivers p.flow session found
      have hSeq := brings.sent session.flow (flow?_of_session? found)
      rw [hReceives.onData brings.isData] at taken
      cases taken
      have hServes : Serves s (s.putSession p.flow { session with sink := session.sink.take p }) :=
        .of_same rfl rfl rfl (flow?_putSession found _)
      exact (h.receive found (hReceives.take hSeq)).push
        (hServes.counts.returns (brings.returns found hReceives))
  | reported journal utilizations queueLengths =>
      have hReport : Brings { s with sessions := s.sessions.map Session.sample } .report := trivial
      exact (h.sample.push hReport).congr rfl rfl rfl rfl
  | ignored event => exact h

theorem Moves.orderly {move : Move} (step : Moves s move t) (h : s.Orderly) (fit : s.Fit) :
    t.Orderly := by
  cases step with
  | timer turn may delivers => exact delivers.orderly (h.congr rfl rfl rfl rfl) { fit with }
  | event turn due handles =>
      obtain ⟨hRest, hBrings⟩ := h.popDue? due
      exact handles.orderly hRest { fit with } hBrings
  | instant | settled | quiet => exact h.congr rfl rfl rfl rfl

omit [PowerScalar α] in
theorem orderly_of_build [Scalar α] {o : Options α} {tables : WindowTables α}
    (built : build o tables = .ok s) : s.Orderly := by
  have hReceivers (id : Nat) (session : Session α) (hFound : s.session? id = some session) :
      session.sink.Receives session.flow.nextSeq := by
    rw [(session?_of_build built hFound).2]
    exact Sink.receives_start _ _
  obtain ⟨_, _, _, _, _, rfl⟩ := build_eq built
  refine ⟨fun p hp => absurd hp List.not_mem_nil, fun time event hPending => ?_, hReceivers⟩
  rcases pending_firstEvents hPending with ⟨id, _, rfl⟩ | rfl
  · trivial
  · trivial

theorem orderly_of_course {o : Options α} {tables : WindowTables α}
    (built : build o tables = .ok s) {moves : List Move} (course : Course s moves t) : t.Orderly :=
  (course.keeps (P := fun _ t => t.Orderly ∧ t.Fit) ⟨orderly_of_build built, fit_of_build built⟩
    fun _ _ _ _ h step => ⟨step.orderly h.1 h.2, step.fit h.2⟩).1

end

end LoadFeedback.Simulation
