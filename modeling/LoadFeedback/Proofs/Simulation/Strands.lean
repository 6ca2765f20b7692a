import LoadFeedback.Proofs.Link.Occupancy
import LoadFeedback.Proofs.Network.Strand
import LoadFeedback.Proofs.Simulation.Legs

/-! The strand of each flow in a simulation: its packets on the legs of the path and in the queue of the
link, put together in the order of the path. A move evolves the strands one by one, and the link hands
on one packet at a time. -/
namespace LoadFeedback

/-- The numbers of the packets that belong to a flow. -/
def numbersOf (id : Nat) (packets : List Packet) : List Nat :=
  packets.filterMap fun p => if p.flow = id then some p.seq else none

@[simp] theorem numbersOf_nil (id : Nat) : numbersOf id [] = [] := rfl

@[simp] theorem numbersOf_append (id : Nat) (xs ys : List Packet) :
    numbersOf id (xs ++ ys) = numbersOf id xs ++ numbersOf id ys := List.filterMap_append

theorem numbersOf_cons (id : Nat) (p : Packet) (rest : List Packet) :
    numbersOf id (p :: rest) = if p.flow = id then p.seq :: numbersOf id rest else numbersOf id rest := by
  rw [numbersOf, List.filterMap_cons]
  split <;> simp_all [numbersOf]

theorem numbersOf_of_flow_eq {id : Nat} {packets : List Packet} (h : ∀ p ∈ packets, p.flow = id)
    (other : Nat) :
    numbersOf other packets = if other = id then packets.map (·.seq) else [] := by
  induction packets with
  | nil => simp
  | cons p rest ih =>
      obtain ⟨hFirst, hRest⟩ := List.forall_mem_cons.mp h
      rw [numbersOf_cons, ih hRest, hFirst]
      by_cases hId : other = id
      · simp [hId]
      · simp [hId, Ne.symm hId]

/-- A stamp changes neither the flow nor the number. -/
theorem Meter.stamp_keeps {α : Type} (m : Meter α) (p : Packet) :
    (m.stamp p).flow = p.flow ∧ (m.stamp p).seq = p.seq := by
  unfold stamp Packet.stamped
  split <;> exact ⟨rfl, rfl⟩

namespace Simulation

variable {α : Type} {s t : Simulation α} {l : Ledger}

/-- The data packets on their way, those that are ahead first. -/
def underway (s : Simulation α) : List Packet :=
  s.agenda.on .leaving ++ s.agenda.on .sending ++ s.link.queue.toList ++ s.agenda.on .arriving

/-- The strand of the flow of a number. -/
def strand (s : Simulation α) (l : Ledger) (id : Nat) : Strand where
  delivered := numbersOf id l.delivered
  underway := numbersOf id s.underway
  lost := numbersOf id l.lost
  handed := numbersOf id l.handed
  returning := numbersOf id (s.agenda.on .returning)

theorem strand_congr {agenda : Agenda Event} (legs : ∀ leg, agenda.on leg = s.agenda.on leg)
    (l : Ledger) (id : Nat) :
    ({ s with agenda := agenda } : Simulation α).strand l id = s.strand l id := by
  simp only [strand, underway, legs]

/-- The link sends one packet exactly while it is busy, and lets none wait while it is idle. The queue
counts the packets in it, and those that it refused. -/
structure Disciplined (s : Simulation α) (l : Ledger) : Prop where
  busy : (s.agenda.on .sending).length = if s.linkBusy then 1 else 0
  idle : s.linkBusy = false → s.link.queue.toList = []
  sized : s.link.queue.Sized
  drops_eq : s.link.queue.drops = l.lost.length

namespace Disciplined

theorem congr {m : Ledger} (h : s.Disciplined l)
    (agenda : t.agenda.on .sending = s.agenda.on .sending) (queue : t.link.queue = s.link.queue)
    (busy : t.linkBusy = s.linkBusy) (lost : m.lost = l.lost) : t.Disciplined m where
  busy := by
    rw [agenda, busy]
    exact h.busy
  idle := by
    rw [queue, busy]
    exact h.idle
  sized := queue ▸ h.sized
  drops_eq := by
    rw [queue, lost]
    exact h.drops_eq

theorem sending_eq_nil (h : s.Disciplined l) (idle : s.linkBusy = false) :
    s.agenda.on .sending = [] := by
  have hLength := h.busy
  rw [idle] at hLength
  exact List.eq_nil_of_length_eq_zero hLength

/-- The packet that has been sent was the only one. -/
theorem sending_of_popDue? (h : s.Disciplined l) {p : Packet} {agenda : Agenda Event}
    (due : s.agenda.popDue? s.now = some (.transmitted p, agenda)) : agenda.on .sending = [] := by
  have hLength := h.busy
  rw [Agenda.on_popDue? due] at hLength
  apply List.eq_nil_of_length_eq_zero
  change (p :: agenda.on .sending).length = _ at hLength
  rw [List.length_cons] at hLength
  split at hLength <;> omega

/-- While nothing is sent, the link may begin with the next packet. -/
theorem transmit [Scalar α] (inTurn : s.InTurn) (sending : s.agenda.on .sending = [])
    (sized : s.link.queue.Sized) (drops_eq : s.link.queue.drops = l.lost.length) :
    s.transmit.Disciplined l := by
  rcases inTurn.on_transmit sending with ⟨hNone, hIdle⟩ | ⟨p, link, hHead, hLink, hBusy, hLegs⟩
  · rw [hIdle]
    have hEmpty := DropTail.toList_eq_nil_of_dequeue? (MeteredQueue.queue_of_dequeue?_eq_none hNone)
    exact ⟨by simp [sending], fun _ => hEmpty, sized, drops_eq⟩
  · obtain ⟨head, hQueue, _⟩ := MeteredQueue.queue_of_dequeue? hHead
    constructor
    case busy => rw [hLegs, hBusy, if_pos rfl, if_pos rfl, List.length_singleton]
    case idle =>
      rw [hBusy]
      nofun
    case sized => exact hLink ▸ sized.dequeue? hQueue
    case drops_eq => exact hLink ▸ (DropTail.dequeue?_eq_some hQueue).2.2.1.trans drops_eq

end Disciplined

section

variable [Scalar α] {o : Options α} {tables : WindowTables α}

/-- No packet is on its way at the start. -/
theorem on_of_build (built : build o tables = .ok s) (leg : Leg) : s.agenda.on leg = [] := by
  rw [List.eq_nil_iff_forall_not_mem]
  intro p hp
  obtain ⟨time, hPending⟩ := Agenda.mem_on.mp hp
  obtain ⟨_, _, _, _, _, rfl⟩ := build_eq built
  rcases pending_firstEvents hPending with ⟨id, _, hEvent⟩ | hEvent
  · cases leg <;> cases hEvent
  · cases leg <;> cases hEvent

theorem strand_of_build (built : build o tables = .ok s) (id : Nat) :
    s.strand ⟨[], [], []⟩ id = .empty := by
  have hLegs := on_of_build built
  have hQueue : s.link.queue.toList = [] := by
    obtain ⟨_, _, _, _, _, rfl⟩ := build_eq built
    rfl
  simp only [strand, underway, hLegs, hQueue]
  rfl

theorem disciplined_of_build (built : build o tables = .ok s) : s.Disciplined ⟨[], [], []⟩ := by
  have hNothing := on_of_build built .sending
  obtain ⟨_, _, _, _, _, rfl⟩ := build_eq built
  exact ⟨by rw [hNothing]; rfl, fun _ => rfl, rfl, rfl⟩

end

variable [PowerScalar α]

/-- The link after an event that came out. One packet fewer is sent if the event ends its sending, and
then the link looks for the next one. -/
theorem Carries.disciplined {event : Event} (step : Carries s event t) (inTurn : s.InTurn)
    (now : Instant) (other : (∀ p, event ≠ .transmitted p) → s.Disciplined l)
    (sent : ∀ p, event = .transmitted p → s.agenda.on .sending = [] ∧ s.link.queue.Sized ∧
      s.link.queue.drops = l.lost.length) : t.Disciplined (s.entered l (.event event now)) := by
  cases step with
  | started journal | acknowledged journal =>
      exact (other nofun).congr (inTurn.on_handOver _ _ _ journal .sending) rfl rfl rfl
  | @arrived p t journal after =>
      have h := other nofun
      have hSized : t.link.queue.Sized := by
        subst after
        exact h.sized.enqueue p
      have hSending : t.agenda.on .sending = s.agenda.on .sending := by rw [after]
      have hBusy : t.linkBusy = s.linkBusy := by rw [after]
      have hDrops : t.link.queue.drops = (s.entered l (.event (.arrival p) now)).lost.length := by
        subst after
        have hCounted := h.drops_eq
        rcases s.link.queue.enqueue_cases p with ⟨hTaken, _, hSame⟩ | ⟨hRefused, _, hMore⟩
        · have hEnqueue : (s.link.enqueue p).1 = true := hTaken
          rw [entered, if_pos hEnqueue]
          exact hSame.trans hCounted
        · have hEnqueue : ¬(s.link.enqueue p).1 = true := Bool.eq_false_iff.mp hRefused
          rw [entered, if_neg hEnqueue, List.length_append, ← hCounted]
          exact hMore
      split
      · next hTrue =>
          refine ⟨?_, fun hFalse => absurd (hTrue.symm.trans hFalse) nofun, hSized, hDrops⟩
          rw [hSending, hBusy]
          exact h.busy
      · next hFalse =>
          rw [hBusy, Bool.not_eq_true] at hFalse
          have hInTurn : t.InTurn := by
            subst after
            exact inTurn.congr rfl rfl (Nat.le_refl _)
          exact .transmit hInTurn (hSending.trans (h.sending_eq_nil hFalse)) hSized hDrops
  | @transmitted p t after =>
      obtain ⟨hSending, hSized, hDrops⟩ := sent p rfl
      have hPush := inTurn.on_push .leaving rfl p .sending
      subst after
      refine .transmit ?_ (hPush.trans hSending) hSized hDrops
      exact (inTurn.pushOn .leaving rfl p).congr rfl rfl (Nat.le_refl _)
  | @delivered p session found =>
      refine (other nofun).congr ?_ rfl rfl rfl
      exact inTurn.on_push .returning rfl _ .sending
  | reported =>
      refine (other nofun).congr ?_ rfl rfl rfl
      exact Agenda.on_push_report inTurn.numbered _ .sending

theorem Advances.disciplined {move : Move} (step : Advances s move t) (inTurn : s.InTurn)
    (h : s.Disciplined l) : t.Disciplined (s.entered l move) := by
  cases step with
  | rested notEvent now_le options agenda queue busy =>
      have hLost : (s.entered l move).lost = l.lost := by
        cases move with
        | event event now => exact absurd rfl (notEvent event now)
        | _ => rfl
      exact h.congr (by rw [agenda]) queue busy hLost
  | @expired key schedule session packets flow journal found call =>
      have hTaken : InTurn { s with schedule := schedule } := inTurn.congr rfl rfl (Nat.le_refl _)
      exact h.congr (hTaken.on_handOver _ _ _ journal .sending) rfl rfl rfl
  | @handled event agenda t due carries =>
      have hSending := Agenda.on_popDue? due .sending
      refine carries.disciplined (inTurn.popDue? due) s.now (fun hOther => ?_) fun p hSent => ?_
      · have hNone : event.packet? .sending = none := by
          rw [Option.eq_none_iff_forall_not_mem]
          exact fun p hp => hOther p (Event.packet?_eq_some.mp hp)
        rw [hNone] at hSending
        exact h.congr hSending.symm rfl rfl rfl
      · subst hSent
        exact ⟨h.sending_of_popDue? due, h.sized, h.drops_eq⟩

section

omit [PowerScalar α]

/-- A packet that begins to be sent stays where it is in its strand. -/
theorem InTurn.strand_transmit [Scalar α] (h : s.InTurn) (sending : s.agenda.on .sending = [])
    (l : Ledger) (id : Nat) : s.transmit.strand l id = s.strand l id := by
  rcases h.on_transmit sending with ⟨_, hIdle⟩ | ⟨p, link, hHead, hLink, _, hLegs⟩
  · rw [hIdle]
    rfl
  · obtain ⟨head, hQueue, rfl⟩ := MeteredQueue.queue_of_dequeue? hHead
    obtain ⟨hFlow, hSeq⟩ := s.link.meter.stamp_keeps head
    have hList := (DropTail.dequeue?_eq_some hQueue).1
    simp only [strand, underway, hLegs, hLink, sending, hList, reduceCtorEq, ↓reduceIte,
      List.append_nil, List.append_assoc, List.cons_append, List.nil_append, numbersOf_append,
      numbersOf_cons, hFlow, hSeq]

theorem session?_handOver {id : Nat} {session : Session α} (found : s.session? id = some session)
    (next : Session α) (packets : List Packet) (journal : List (Record α)) (other : Nat) :
    (s.handOver id next packets journal).session? other =
      if other = id then some next else s.session? other := session?_putSession found next other

/-- The packets of a flow join its strand, at the end. -/
theorem InTurn.strand_handOver (h : s.InTurn) {id : Nat} {packets : List Packet}
    (own : ∀ p ∈ packets, p.flow = id) (next : Session α) (journal : List (Record α)) (l : Ledger)
    (other : Nat) : (s.handOver id next packets journal).strand l other =
      if other = id then
        { s.strand l other with
          underway := (s.strand l other).underway ++ packets.map (·.seq) }
      else s.strand l other := by
  have hQueue : (s.handOver id next packets journal).link = s.link := rfl
  simp only [strand, underway, h.on_handOver, hQueue, reduceCtorEq, ↓reduceIte, numbersOf_append,
    numbersOf_of_flow_eq own, List.append_assoc]
  split
  · rfl
  · simp only [List.append_nil]

/-- An event that brings no packet has none on any leg. -/
theorem strand_of_quiet {event : Event} {agenda : Agenda Event}
    (due : s.agenda.popDue? s.now = some (event, agenda)) (quiet : ∀ leg, event.packet? leg = none)
    (l : Ledger) (id : Nat) : ({ s with agenda := agenda } : Simulation α).strand l id = s.strand l id :=
  strand_congr (fun leg => by simp [Agenda.on_popDue? due leg, quiet]) l id

end

/-- The strand of every flow evolves together with its session. -/
def Evolve (s : Simulation α) (l : Ledger) (t : Simulation α) (m : Ledger) : Prop :=
  ∀ id next, t.session? id = some next → ∃ session, s.session? id = some session ∧
    (s.strand l id).Evolves session s.now (t.strand m id) next

theorem Evolve.of_same (sessions : t.sessions = s.sessions) {m : Ledger}
    (strand : ∀ id, t.strand m id = s.strand l id) : s.Evolve l t m := by
  intro id next hNext
  refine ⟨next, ?_, ?_⟩
  · simpa only [session?, sessions] using hNext
  · rw [strand]
    exact .rests rfl rfl rfl

/-- One flow evolves with its session, and the others stay as they are. -/
theorem Evolve.of_one {m : Ledger} {id : Nat} {session next : Session α}
    (found : s.session? id = some session)
    (sessions : ∀ other, t.session? other = if other = id then some next else s.session? other)
    (own : (s.strand l id).Evolves session s.now (t.strand m id) next)
    (others : ∀ other, other ≠ id → t.strand m other = s.strand l other) : s.Evolve l t m := by
  intro other last hLast
  rw [sessions] at hLast
  split at hLast
  · next hId =>
      subst hId
      cases hLast
      exact ⟨session, found, own⟩
  · next hId =>
      refine ⟨last, hLast, ?_⟩
      rw [others other hId]
      exact .rests rfl rfl rfl

theorem Evolve.transmit {m : Ledger} (h : s.Evolve l t m) (inTurn : t.InTurn)
    (sending : t.agenda.on .sending = []) : s.Evolve l t.transmit m := by
  obtain ⟨_, _, _, hSessions, _, _⟩ := t.transmit_keeps
  intro id next hNext
  rw [inTurn.strand_transmit sending]
  exact h id next (by simpa only [session?, hSessions] using hNext)

/-- The queue takes the packet that arrives, or it is lost between those before and behind it. -/
theorem evolve_arrived {p : Packet} {agenda : Agenda Event} {journal : List (Record α)}
    (due : s.agenda.popDue? s.now = some (.arrival p, agenda))
    (after : t = { s with agenda := agenda, link := (s.link.enqueue p).2, journal := journal })
    (now : Instant) : s.Evolve l t (s.entered l (.event (.arrival p) now)) := by
  have hLegs := Agenda.on_popDue? due
  rcases s.link.queue.enqueue_cases p with ⟨hTaken, hQueue, _⟩ | ⟨hRefused, hQueue, _⟩
  · have hEnqueue : (s.link.enqueue p).1 = true := hTaken
    rw [entered, if_pos hEnqueue]
    subst after
    have hList : (s.link.enqueue p).2.queue.toList = s.link.queue.toList ++ [p] := hQueue
    apply Evolve.of_same
    · rfl
    intro id
    simp only [strand, underway, hLegs, hList, Event.packet?, reduceCtorEq, ↓reduceIte,
      Option.toList_some, Option.toList_none, List.nil_append, List.append_assoc]
  · have hEnqueue : ¬(s.link.enqueue p).1 = true := Bool.eq_false_iff.mp hRefused
    rw [entered, if_neg hEnqueue]
    subst after
    have hList : (s.link.enqueue p).2.queue.toList = s.link.queue.toList := hQueue
    intro id next hNext
    refine ⟨next, hNext, ?_⟩
    simp only [strand, underway, hLegs, hList, Event.packet?, reduceCtorEq, ↓reduceIte,
      Option.toList_some, Option.toList_none, List.nil_append, numbersOf_append, numbersOf_cons,
      numbersOf_nil]
    split
    · exact .loses rfl
    · simp only [List.nil_append, List.append_nil]
      exact .rests rfl rfl rfl

/-- What was sent is ahead of everything that waits. -/
theorem evolve_transmitted {p : Packet} {agenda : Agenda Event} (inTurn : s.InTurn)
    (due : s.agenda.popDue? s.now = some (.transmitted p, agenda)) (sending : agenda.on .sending = [])
    (after : t =
      { s with
        agenda := agenda.push (s.now + s.options.forwardDelay) (.delivery p)
        transmitted := s.transmitted + p.size.toUInt64 }) : s.Evolve l t l := by
  have hLegs := Agenda.on_popDue? due
  have hPush (leg : Leg) :
      (agenda.push (s.now + s.options.forwardDelay) (.delivery p)).on leg =
        if leg = .leaving then agenda.on .leaving ++ [p] else agenda.on leg :=
    (inTurn.popDue? due).on_push .leaving rfl p leg
  subst after
  apply Evolve.of_same
  · rfl
  intro id
  simp only [strand, underway, hLegs, hPush, sending, Event.packet?, reduceCtorEq, ↓reduceIte,
    Option.toList_some, Option.toList_none, List.nil_append, List.append_nil]

theorem evolve_delivered {p : Packet} {session : Session α} {agenda : Agenda Event}
    (inTurn : s.InTurn) (due : s.agenda.popDue? s.now = some (.delivery p, agenda))
    (found : s.session? p.flow = some session)
    (after : t =
      { s.putSession p.flow { session with sink := session.sink.take p } with
        agenda := agenda.push (s.now + s.options.reverseDelay)
          (.ackArrival (session.sink.answer p s.now)) }) :
    s.Evolve l t { l with delivered := l.delivered ++ [p] } := by
  have hLegs := Agenda.on_popDue? due
  have hPush (leg : Leg) :
      (agenda.push (s.now + s.options.reverseDelay)
        (.ackArrival (session.sink.answer p s.now))).on leg =
        if leg = .returning then agenda.on .returning ++ [session.sink.answer p s.now]
        else agenda.on leg :=
    (inTurn.popDue? due).on_push .returning rfl _ leg
  have hFlow : (session.sink.answer p s.now).flow = p.flow := rfl
  have hQueue : t.link = s.link := by rw [after]; rfl
  have hAgenda : t.agenda = agenda.push (s.now + s.options.reverseDelay)
      (.ackArrival (session.sink.answer p s.now)) := by rw [after]
  have hSessions (other : Nat) : t.session? other =
      if other = p.flow then some { session with sink := session.sink.take p }
      else s.session? other := by
    rw [after]
    exact session?_putSession found _ other
  refine .of_one found hSessions ?_ fun other hOther => ?_
  · have hFirst : (s.strand l p.flow).underway = p.seq ::
        numbersOf p.flow (agenda.on .leaving ++ agenda.on .sending ++ s.link.queue.toList ++
          agenda.on .arriving) := by
      simp only [strand, underway, hLegs, Event.packet?, reduceCtorEq, ↓reduceIte,
        Option.toList_some, Option.toList_none, List.nil_append, numbersOf_append, numbersOf_cons,
        List.cons_append]
    have hNext : t.strand { l with delivered := l.delivered ++ [p] } p.flow =
        { s.strand l p.flow with
          delivered := (s.strand l p.flow).delivered ++ [p.seq]
          underway := numbersOf p.flow (agenda.on .leaving ++ agenda.on .sending ++
            s.link.queue.toList ++ agenda.on .arriving)
          returning := (s.strand l p.flow).returning ++ [(session.sink.take p).cumulative] } := by
      simp only [strand, underway, hAgenda, hQueue, hLegs, hPush, Event.packet?, reduceCtorEq,
        ↓reduceIte, Option.toList_none, List.nil_append, numbersOf_append, numbersOf_cons,
        numbersOf_nil, hFlow]
      rfl
    rw [hNext]
    exact .delivers hFirst
  · simp only [strand, underway, hAgenda, hQueue, hLegs, hPush, Event.packet?, reduceCtorEq,
      ↓reduceIte, Option.toList_some, Option.toList_none, List.nil_append, numbersOf_append,
      numbersOf_cons, numbersOf_nil, hFlow, Ne.symm hOther, List.append_nil, List.cons_append]

theorem evolve_acknowledged {ack : Packet} {session : Session α} {packets : List Packet}
    {flow : Flow α} {agenda : Agenda Event} {journal : List (Record α)} (inTurn : s.InTurn)
    (due : s.agenda.popDue? s.now = some (.ackArrival ack, agenda))
    (found : s.session? ack.flow = some session)
    (call : session.flow.onAck ack s.now = (.ok packets, flow))
    (own : ∀ p ∈ packets, p.flow = ack.flow) :
    s.Evolve l
      (({ s with agenda := agenda } : Simulation α).handOver ack.flow { session with flow := flow }
        packets journal)
      { l with handed := l.handed ++ [ack] } := by
  have hLegs := Agenda.on_popDue? due
  have hStrand := (inTurn.popDue? due).strand_handOver own { session with flow := flow } journal
    { l with handed := l.handed ++ [ack] }
  refine .of_one found (session?_handOver found _ packets journal) ?_ fun other hOther => ?_
  · have hFirst : (s.strand l ack.flow).returning =
        ack.seq :: numbersOf ack.flow (agenda.on .returning) := by
      simp only [strand, hLegs, Event.packet?, ↓reduceIte, Option.toList_some, numbersOf_cons,
        List.cons_append, List.nil_append]
    rw [hStrand, if_pos rfl]
    have hNext : ({ s with agenda := agenda } : Simulation α).strand
        { l with handed := l.handed ++ [ack] } ack.flow =
        { s.strand l ack.flow with
          handed := (s.strand l ack.flow).handed ++ [ack.seq]
          returning := numbersOf ack.flow (agenda.on .returning) } := by
      simp only [strand, underway, hLegs, Event.packet?, reduceCtorEq, ↓reduceIte,
        Option.toList_none, List.nil_append, numbersOf_append, numbersOf_cons, numbersOf_nil]
    rw [hNext]
    exact .hands hFirst call
  · rw [hStrand, if_neg hOther]
    simp only [strand, underway, hLegs, Event.packet?, reduceCtorEq, ↓reduceIte,
      Option.toList_some, Option.toList_none, List.nil_append, numbersOf_append, numbersOf_cons,
      numbersOf_nil, Ne.symm hOther, List.append_nil]

theorem evolve_reported {agenda : Agenda Event} {time : Instant} (inTurn : s.InTurn)
    (due : s.agenda.popDue? s.now = some (.report, agenda))
    (sessions : t.sessions = s.sessions.map Session.sample) (link : t.link = s.link)
    (after : t.agenda = agenda.push time .report) : s.Evolve l t l := by
  have hPush (leg : Leg) : t.agenda.on leg = s.agenda.on leg := by
    rw [after, Agenda.on_push_report (inTurn.popDue? due).numbered, Agenda.on_popDue? due leg]
    rfl
  intro id next hNext
  rw [session?_sampled sessions] at hNext
  obtain ⟨session, hFound, rfl⟩ := Option.map_eq_some_iff.mp hNext
  have hStrand : t.strand l id = s.strand l id := by simp only [strand, underway, hPush, link]
  rw [hStrand]
  exact ⟨session, hFound, .rests rfl rfl rfl⟩

/-- What a flow sends when it begins sets out from its sender. -/
theorem evolve_started {id : Nat} {session : Session α} {packets : List Packet} {flow : Flow α}
    {agenda : Agenda Event} {journal : List (Record α)} (inTurn : s.InTurn)
    (due : s.agenda.popDue? s.now = some (.start id, agenda))
    (found : s.session? id = some session)
    (call : session.flow.sendMany s.now = (packets, flow)) (own : ∀ p ∈ packets, p.flow = id) :
    s.Evolve l
      (({ s with agenda := agenda } : Simulation α).handOver id
        { session with flow := flow, startedAt := some s.now } packets journal) l := by
  have hQuiet := strand_of_quiet due (fun _ => rfl) l
  have hStrand := (inTurn.popDue? due).strand_handOver own
    { session with flow := flow, startedAt := some s.now } journal l
  refine .of_one found (session?_handOver found _ packets journal) ?_ fun other hOther => ?_
  · rw [hStrand, if_pos rfl, hQuiet]
    exact .starts call
  · exact ((hStrand other).trans (if_neg hOther)).trans (hQuiet other)

theorem evolve_expired {key : TimerKey} {schedule : Schedule} {session : Session α}
    {packets : List Packet} {flow : Flow α} {journal : List (Record α)} (inTurn : s.InTurn)
    (found : s.session? key.owner = some session)
    (call : session.flow.onTimer key.timer s.now = (.ok packets, flow))
    (own : ∀ p ∈ packets, p.flow = key.owner) :
    s.Evolve l
      (({ s with schedule := schedule } : Simulation α).handOver key.owner
        { session with flow := flow } packets journal) l := by
  have hTaken : InTurn { s with schedule := schedule } := inTurn.congr rfl rfl (Nat.le_refl _)
  have hStrand := hTaken.strand_handOver own { session with flow := flow } journal l
  refine .of_one found (session?_handOver found _ packets journal) ?_ fun other hOther => ?_
  · rw [hStrand, if_pos rfl]
    exact .expires call
  · exact (hStrand other).trans (if_neg hOther)

/-- Every move evolves the strands, each with its session. -/
theorem Advances.evolve {move : Move} (step : Advances s move t) (inTurn : s.InTurn)
    (h : s.Disciplined l) (fit : s.Fit) : s.Evolve l t (s.entered l move) := by
  cases step with
  | rested notEvent now_le options agenda queue busy sessions =>
      have hSame : s.entered l move = l := by
        cases move with
        | event event now => exact absurd rfl (notEvent event now)
        | _ => rfl
      rw [hSame]
      apply Evolve.of_same sessions
      intro id
      simp only [strand, underway, agenda, queue]
  | @expired key schedule session packets flow journal found call =>
      have hNumber := (fit.flow _ _ (flow?_of_session? found)).id_eq
      refine evolve_expired inTurn found call fun p hp => ?_
      exact ((Flow.continues_onTimer call).sent p hp).1.trans hNumber
  | @handled event agenda t due carries =>
      have hTaken := inTurn.popDue? due
      cases carries with
      | @started id session packets flow journal found call =>
          have hFound : s.session? id = some session := found
          have hNumber := (fit.flow _ _ (flow?_of_session? hFound)).id_eq
          have hSends := session.flow.continues_sendMany s.now
          have hCall : session.flow.sendMany s.now = (packets, flow) := call
          rw [hCall] at hSends
          refine evolve_started inTurn due hFound hCall fun p hp => ?_
          exact (hSends.sent p hp).1.trans hNumber
      | @arrived p t journal after =>
          have hArrived := evolve_arrived (l := l) due after s.now
          split
          · exact hArrived
          · next hFalse =>
              have hBusy : s.linkBusy = false := by
                rw [after, Bool.not_eq_true] at hFalse
                exact hFalse
              have hSending : t.agenda.on .sending = [] := by
                have hLeg := Agenda.on_popDue? due .sending
                rw [h.sending_eq_nil hBusy] at hLeg
                rw [after]
                exact hLeg.symm
              have hInTurn : t.InTurn := by
                subst after
                exact hTaken.congr rfl rfl (Nat.le_refl _)
              exact hArrived.transmit hInTurn hSending
      | @transmitted p t after =>
          have hEmpty := h.sending_of_popDue? due
          have hInTurn : t.InTurn := by
            subst after
            exact (hTaken.pushOn .leaving rfl p).congr rfl rfl (Nat.le_refl _)
          have hSending : t.agenda.on .sending = [] := by
            rw [after]
            exact (hTaken.on_push .leaving rfl p .sending).trans hEmpty
          exact (evolve_transmitted inTurn due hEmpty after).transmit hInTurn hSending
      | delivered found => exact evolve_delivered inTurn due found rfl
      | @acknowledged ack session packets flow journal found call =>
          have hFound : s.session? ack.flow = some session := found
          have hNumber := (fit.flow _ _ (flow?_of_session? hFound)).id_eq
          refine evolve_acknowledged inTurn due hFound call fun p hp => ?_
          exact ((Flow.continues_onAck call).sent p hp).1.trans hNumber
      | reported journal utilizations queueLengths =>
          exact evolve_reported inTurn due rfl rfl rfl

end Simulation
end LoadFeedback
