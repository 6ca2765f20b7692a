import LoadFeedback.Proofs.Simulation.Strands

/-! What holds of the packets on every course: they belong to flows that are there, each leg keeps their
order, the link sends them one by one, and the strand of each flow is in order. -/
namespace LoadFeedback.Simulation

variable {α : Type} {s t : Simulation α} {l : Ledger}

theorem length_of_mapM {β γ ε : Type} {f : β → Except ε γ} {xs : List β} {ys : List γ}
    (h : xs.mapM f = .ok ys) : ys.length = xs.length := by
  induction xs generalizing ys with
  | nil =>
      cases h
      rfl
  | cons x xs ih =>
      rw [List.mapM_cons] at h
      cases hFirst : f x with
      | error fault => simp [hFirst, bind, Except.bind] at h
      | ok first =>
          cases hRest : xs.mapM f with
          | error fault => simp [hFirst, hRest, bind, Except.bind] at h
          | ok rest =>
              simp only [hFirst, hRest, bind, Except.bind, pure, Except.pure, Except.ok.injEq] at h
              rw [← h, List.length_cons, List.length_cons, ih hRest]

theorem has_iff (s : Simulation α) (id : Nat) :
    (∃ session, s.session? id = some session) ↔ id ∈ List.range' 1 s.sessions.length := by
  cases id with
  | zero => simp [session?]
  | succ i =>
      simp only [session?, List.mem_range'_1, List.getElem?_eq_some_iff]
      constructor
      · rintro ⟨_, hPlace, _⟩
        omega
      · intro hPlace
        exact ⟨_, by omega, rfl⟩

/-- Events and packets are about flows that are there. -/
structure Addressed (ids : List Nat) (s : Simulation α) (l : Ledger) : Prop where
  ids_eq : List.range' 1 s.sessions.length = ids
  pending : ∀ time event id, s.agenda.Pending time event → event.flow? = some id → id ∈ ids
  queued : ∀ p ∈ s.link.queue.toList, p.flow ∈ ids
  entered : ∀ p ∈ l.delivered ++ l.lost, p.flow ∈ ids

namespace Addressed

variable {ids : List Nat}

theorem found (h : s.Addressed ids l) {id : Nat} (hId : id ∈ ids) :
    ∃ session, s.session? id = some session :=
  (s.has_iff id).mpr (h.ids_eq ▸ hId)

theorem mem (h : s.Addressed ids l) {id : Nat} {session : Session α}
    (found : s.session? id = some session) : id ∈ ids :=
  h.ids_eq ▸ (s.has_iff id).mp ⟨session, found⟩

/-- Whatever is there stays addressed. It remains to look at what is new. -/
theorem step {m : Ledger} (h : s.Addressed ids l) (sessions : t.sessions.length = s.sessions.length)
    (pending : ∀ time event, t.agenda.Pending time event →
      s.agenda.Pending time event ∨ ∀ id, event.flow? = some id → id ∈ ids)
    (queued : ∀ p ∈ t.link.queue.toList, p ∈ s.link.queue.toList ∨ p.flow ∈ ids)
    (entered : ∀ p ∈ m.delivered ++ m.lost, p ∈ l.delivered ++ l.lost ∨ p.flow ∈ ids) :
    t.Addressed ids m where
  ids_eq := sessions ▸ h.ids_eq
  pending time event id hPending hFlow :=
    (pending time event hPending).elim (fun hOld => h.pending time event id hOld hFlow) fun hNew =>
      hNew id hFlow
  queued p hp := (queued p hp).elim (h.queued p) id
  entered p hp := (entered p hp).elim (h.entered p) id

/-- An event comes out, and is about a flow that is there. -/
theorem popDue? (h : s.Addressed ids l) {event : Event} {agenda : Agenda Event}
    (due : s.agenda.popDue? s.now = some (event, agenda)) :
    Addressed ids { s with agenda := agenda } l ∧ ∀ id, event.flow? = some id → id ∈ ids := by
  obtain ⟨time, hPending, _, hRest⟩ := Agenda.popDue?_eq_some due
  refine ⟨?_, fun id hFlow => h.pending time event id hPending hFlow⟩
  exact h.step rfl (fun later other hOther => Or.inl (hRest later other hOther))
    (fun _ hp => Or.inl hp) fun _ hp => Or.inl hp

/-- An event is put down, and a packet that is about the same flow may enter the ledger. -/
theorem push {m : Ledger} (h : s.Addressed ids l) (event : Event)
    (hEvent : ∀ id, event.flow? = some id → id ∈ ids)
    (sessions : t.sessions.length = s.sessions.length) {time : Instant}
    (agenda : t.agenda = s.agenda.push time event) (link : t.link = s.link)
    (entered : ∀ p ∈ m.delivered ++ m.lost, p ∈ l.delivered ++ l.lost ∨ p.flow ∈ ids) :
    t.Addressed ids m := by
  refine h.step sessions (fun later other hPending => ?_) (fun p hp => ?_) entered
  · rw [agenda] at hPending
    rcases Agenda.pending_push hPending with ⟨_, rfl⟩ | hOld
    · exact Or.inr hEvent
    · exact Or.inl hOld
  · rw [link] at hp
    exact Or.inl hp

theorem handOver (h : s.Addressed ids l) {id : Nat} (hId : id ∈ ids) {packets : List Packet}
    (own : ∀ p ∈ packets, p.flow = id) (session : Session α) (journal : List (Record α)) :
    (s.handOver id session packets journal).Addressed ids l := by
  refine h.step (List.length_set ..) (fun time event hPending => ?_) (fun _ hp => Or.inl hp)
    fun _ hp => Or.inl hp
  rcases Agenda.pending_foldl_push hPending with ⟨_, p, hp, rfl⟩ | hOld
  · refine Or.inr fun other hFlow => ?_
    rw [← Option.some.inj hFlow, own p hp]
    exact hId
  · exact Or.inl hOld

theorem transmit [Scalar α] (h : s.Addressed ids l) : s.transmit.Addressed ids l := by
  rcases s.transmit_cases with ⟨_, hIdle⟩ | ⟨p, link, hHead, hNext⟩
  · rw [hIdle]
    exact h.step rfl (fun _ _ hPending => Or.inl hPending) (fun _ hp => Or.inl hp)
      fun _ hp => Or.inl hp
  · rw [hNext]
    obtain ⟨head, hQueue, rfl⟩ := MeteredQueue.queue_of_dequeue? hHead
    have hList := (DropTail.dequeue?_eq_some hQueue).1
    have hFlow := (s.link.meter.stamp_keeps head).1
    have hHeadIn : head.flow ∈ ids := h.queued head (hList ▸ List.mem_cons_self)
    refine h.step rfl (fun time event hPending => ?_) (fun q hq => Or.inl ?_) fun _ hp => Or.inl hp
    · rcases Agenda.pending_push hPending with ⟨_, rfl⟩ | hOld
      · refine Or.inr fun id hId => ?_
        rw [← Option.some.inj hId, hFlow]
        exact hHeadIn
      · exact Or.inl hOld
    · exact hList ▸ List.mem_cons_of_mem _ hq

end Addressed

section

variable [PowerScalar α] {ids : List Nat}

theorem Carries.addressed {event : Event} (step : Carries s event t) (fit : s.Fit)
    (h : s.Addressed ids l) (hEvent : ∀ id, event.flow? = some id → id ∈ ids) (now : Instant) :
    t.Addressed ids (s.entered l (.event event now)) := by
  cases step with
  | @started id session packets flow journal found call =>
      have hNumber := (fit.flow _ _ (flow?_of_session? found)).id_eq
      have hSends := session.flow.continues_sendMany s.now
      rw [call] at hSends
      exact h.handOver (h.mem found) (fun p hp => (hSends.sent p hp).1.trans hNumber) _ journal
  | @arrived p t journal after =>
      have hFlow := hEvent p.flow rfl
      have hQueued : t.Addressed ids (s.entered l (.event (.arrival p) now)) := by
        subst after
        refine h.step rfl (fun _ _ hPending => Or.inl hPending) (fun q hq => ?_) fun q hq => ?_
        · rcases FifoQueue.mem_enqueue (q := s.link.queue) hq with hOld | rfl
          · exact Or.inl hOld
          · exact Or.inr hFlow
        · rw [entered] at hq
          split at hq
          · exact Or.inl hq
          · rw [← List.append_assoc] at hq
            rcases List.mem_append.mp hq with hOld | hNew
            · exact Or.inl hOld
            · exact Or.inr (List.mem_singleton.mp hNew ▸ hFlow)
      split
      · exact hQueued
      · exact hQueued.transmit
  | @transmitted p t after =>
      have hSent : t.Addressed ids l := by
        subst after
        exact h.push (.delivery p) hEvent rfl rfl rfl fun _ hp => Or.inl hp
      exact hSent.transmit
  | @delivered p session found =>
      refine h.push (.ackArrival (session.sink.answer p s.now)) hEvent (List.length_set ..) rfl rfl
        fun q hq => ?_
      rw [entered, List.append_assoc, List.mem_append, List.mem_append] at hq
      rcases hq with hOld | hNew | hLost
      · exact Or.inl (List.mem_append_left _ hOld)
      · exact Or.inr (List.mem_singleton.mp hNew ▸ hEvent p.flow rfl)
      · exact Or.inl (List.mem_append_right _ hLost)
  | @acknowledged ack session packets flow journal found call =>
      have hNumber := (fit.flow _ _ (flow?_of_session? found)).id_eq
      have hSent (p : Packet) (hp : p ∈ packets) : p.flow = ack.flow :=
        ((Flow.continues_onAck call).sent p hp).1.trans hNumber
      have hNext := h.handOver (h.mem found) hSent { session with flow := flow } journal
      exact { hNext with }
  | reported journal =>
      exact h.push .report (fun id hId => by cases hId) (List.length_map ..) rfl rfl fun _ hp =>
        Or.inl hp

theorem Advances.addressed {move : Move} (step : Advances s move t) (fit : s.Fit)
    (h : s.Addressed ids l) : t.Addressed ids (s.entered l move) := by
  cases step with
  | rested notEvent now_le options agenda queue busy sessions =>
      have hSame : s.entered l move = l := by
        cases move with
        | event event now => exact absurd rfl (notEvent event now)
        | _ => rfl
      rw [hSame]
      exact h.step (by rw [sessions]) (fun _ _ hPending => Or.inl (agenda ▸ hPending))
        (fun _ hp => Or.inl (queue ▸ hp)) fun _ hp => Or.inl hp
  | @expired key schedule session packets flow journal found call =>
      have hNumber := (fit.flow _ _ (flow?_of_session? found)).id_eq
      have hSent (p : Packet) (hp : p ∈ packets) : p.flow = key.owner :=
        ((Flow.continues_onTimer call).sent p hp).1.trans hNumber
      have hTaken : Addressed ids { s with schedule := schedule } l := { h with }
      exact hTaken.handOver (h.mem found) hSent _ journal
  | handled due carries =>
      obtain ⟨hTaken, hEvent⟩ := h.popDue? due
      exact carries.addressed { fit with } hTaken hEvent s.now

omit [PowerScalar α] in
theorem addressed_of_build [Scalar α] {o : Options α} {tables : WindowTables α}
    (built : build o tables = .ok s) :
    s.Addressed (List.range' 1 s.sessions.length) ⟨[], [], []⟩ := by
  obtain ⟨_, sessions, _, _, hSessions, rfl⟩ := build_eq built
  have hLength : sessions.length = o.flows := by
    rw [length_of_mapM hSessions, List.length_range']
  refine ⟨rfl, fun time event id hPending hFlow => ?_, fun p hp => ?_, fun p hp => ?_⟩
  · change id ∈ List.range' 1 sessions.length
    rw [hLength]
    rcases pending_firstEvents hPending with ⟨first, hFirst, rfl⟩ | rfl
    · cases hFlow
      exact hFirst
    · cases hFlow
  · cases hp
  · cases hp

omit [PowerScalar α] in
theorem startedAt_of_build [Scalar α] {o : Options α} {tables : WindowTables α}
    (built : build o tables = .ok s) {id : Nat} {session : Session α}
    (found : s.session? id = some session) : session.startedAt = none := by
  obtain ⟨_, sessions, _, _, hSessions, rfl⟩ := build_eq built
  cases id with
  | zero => cases found
  | succ i =>
      obtain ⟨number, _, hSession⟩ := mapM_eq_ok hSessions i session found
      cases hFlow : Flow.build number (senderConfig o) tables with
      | error fault =>
          rw [hFlow] at hSession
          cases hSession
      | ok flow =>
          rw [hFlow] at hSession
          cases hSession
          rfl

/-- Everything that holds of the packets of a simulation. -/
structure Conveys (o : Options α) (ids : List Nat) (moves : List Move) (l : Ledger)
    (s : Simulation α) : Prop where
  punctual : Punctual o moves s
  orderly : s.Orderly
  inTurn : s.InTurn
  disciplined : s.Disciplined l
  addressed : s.Addressed ids l
  strands : ∀ id session, s.session? id = some session →
    (s.strand l id).Conserves session ∧ (s.strand l id).Clocks session

/-- A receiver answers whatever packet comes to it. -/
theorem Conveys.answers {o : Options α} {moves : List Move} (h : Conveys o ids moves l s) {time : Instant}
    {event : Event} (hPending : s.agenda.Pending time event) : s.Answers event := by
  rintro p session rfl hFound
  have hTravels : s.Travels p := h.orderly.pending time _ hPending
  exact (h.strands p.flow session hFound).1.onData hTravels.isData s.now

theorem Conveys.advances {o : Options α} {moves : List Move} (h : Conveys o ids moves l s) {move : Move}
    (last : Next s move (.running t)) : Advances s move t :=
  advances_of_next h.punctual
    (fun time event id hPending hFlow =>
      h.addressed.found (h.addressed.pending time event id hPending hFlow))
    (fun _ _ hPending => h.answers hPending) last

theorem Conveys.next {o : Options α} {moves : List Move} (h : Conveys o ids moves l s) {move : Move}
    (last : Next s move (.running t)) : Conveys o ids (moves ++ [move]) (s.entered l move) t := by
  have hStep := h.advances last
  have hMoves := moves_of_next last
  have hPunctual : Punctual o (moves ++ [move]) t :=
    ⟨hMoves.options_eq.trans h.punctual.options_eq, hMoves.fit h.punctual.fit,
      hMoves.mirrored h.punctual.mirror h.punctual.fit,
      hMoves.timely h.punctual.timely h.punctual.mirror h.punctual.fit, hMoves.periodic h.punctual⟩
  refine ⟨hPunctual, hMoves.orderly h.orderly h.punctual.fit, hStep.inTurn h.inTurn,
    hStep.disciplined h.inTurn h.disciplined, hStep.addressed h.punctual.fit h.addressed,
    fun id session hFound => ?_⟩
  obtain ⟨old, hOld, hEvolves⟩ := hStep.evolve h.inTurn h.disciplined h.punctual.fit id session hFound
  obtain ⟨hConserves, hClocks⟩ := h.strands id old hOld
  exact ⟨hEvolves.conserves hConserves, hEvolves.clocks hClocks hConserves⟩

theorem conveys_of_build {o : Options α} {tables : WindowTables α} (built : build o tables = .ok s) :
    Conveys o (List.range' 1 s.sessions.length) [] ⟨[], [], []⟩ s := by
  refine ⟨punctual_of_build built, orderly_of_build built, inTurn_of_build built,
    disciplined_of_build built, addressed_of_build built, fun id session hFound => ?_⟩
  obtain ⟨hFlow, hSink⟩ := session?_of_build built hFound
  have hWindow := Controller.tally_start (senderConfig o) tables
  rw [strand_of_build built]
  exact ⟨.of_start hFlow hWindow hSink, .of_start hFlow (startedAt_of_build built hFound)⟩

theorem conveys_of_recorded {o : Options α} {tables : WindowTables α} {moves : List Move}
    (built : build o tables = .ok s) (recorded : Recorded s moves l t) :
    Conveys o (List.range' 1 s.sessions.length) moves l t := by
  induction recorded with
  | start => exact conveys_of_build built
  | next prior last ih => exact ih.next last

end

end LoadFeedback.Simulation
