import LoadFeedback.Proofs.Agenda.Channel
import LoadFeedback.Proofs.Simulation.Advance

/-! The parts of a path that a packet travels as an event to come. On each leg all packets take the same
time, or there is one packet at most, so they come out in the order in which they went in. -/
namespace LoadFeedback

/-- A part of the path between two events. -/
inductive Leg where
  /-- From a sender to the link. -/
  | arriving
  /-- Onto the link. -/
  | sending
  /-- From the link to a receiver. -/
  | leaving
  /-- From a receiver to its sender. -/
  | returning
  deriving DecidableEq

/-- The event at the end of a leg. -/
def Leg.event : Leg → Packet → Event
  | .arriving => .arrival
  | .sending => .transmitted
  | .leaving => .delivery
  | .returning => .ackArrival

/-- How long a leg takes, if it takes every packet the same time. -/
def Leg.delay? {α : Type} (o : Options α) : Leg → Option Span
  | .arriving | .leaving => some o.forwardDelay
  | .returning => some o.reverseDelay
  | .sending => none

/-- The packet that an event brings to the end of a leg. -/
def Event.packet? (leg : Leg) : Event → Option Packet
  | .arrival p => if leg = .arriving then some p else none
  | .transmitted p => if leg = .sending then some p else none
  | .delivery p => if leg = .leaving then some p else none
  | .ackArrival ack => if leg = .returning then some ack else none
  | .start _ | .report => none

theorem Leg.packet?_event (leg other : Leg) (p : Packet) :
    (leg.event p).packet? other = if other = leg then some p else none := by
  cases leg <;> rfl

theorem Event.packet?_eq_some {leg : Leg} {event : Event} {p : Packet} :
    event.packet? leg = some p ↔ event = leg.event p := by
  cases event <;> cases leg <;> simp [packet?, Leg.event]

namespace Agenda

variable {a rest : Agenda Event} {leg : Leg} {p : Packet}

/-- The packets on a leg, the first one first. -/
def on (a : Agenda Event) (leg : Leg) : List Packet := a.select (Event.packet? leg)

theorem mem_on : p ∈ a.on leg ↔ ∃ time, a.Pending time (leg.event p) := by
  rw [on, mem_select]
  constructor
  · rintro ⟨time, event, hPending, hSome⟩
    exact ⟨time, Event.packet?_eq_some.mp hSome ▸ hPending⟩
  · rintro ⟨time, hPending⟩
    exact ⟨time, _, hPending, Event.packet?_eq_some.mpr rfl⟩

/-- A packet that sets out on a leg after all others there comes out after them. -/
theorem on_push (h : a.Numbered) (leg : Leg) {time : Instant}
    (last : ∀ q later, a.Pending later (leg.event q) → later ≤ time) (p : Packet) (other : Leg) :
    (a.push time (leg.event p)).on other =
      if other = leg then a.on leg ++ [p] else a.on other := by
  have hKind := leg.packet?_event other p
  split
  · next hLeg =>
      subst hLeg
      rw [if_pos rfl] at hKind
      refine select_push h hKind fun event later hPending hSome => ?_
      obtain ⟨q, hq⟩ := Option.isSome_iff_exists.mp hSome
      exact last q later (Event.packet?_eq_some.mp hq ▸ hPending)
  · next hLeg =>
      rw [if_neg hLeg] at hKind
      exact select_push_none h hKind time

theorem on_push_report (h : a.Numbered) (time : Instant) (leg : Leg) :
    (a.push time .report).on leg = a.on leg := select_push_none h rfl time

/-- Packets that set out together come out in their order. -/
theorem on_foldl_push (h : a.Numbered) {time : Instant}
    (last : ∀ q later, a.Pending later (.arrival q) → later ≤ time) (packets : List Packet)
    (other : Leg) :
    (packets.foldl (fun a p => a.push time (.arrival p)) a).on other =
      if other = .arriving then a.on .arriving ++ packets else a.on other := by
  induction packets generalizing a with
  | nil => cases other <;> simp
  | cons p packets ih =>
      have hPush := on_push h .arriving last p
      rw [List.foldl_cons, ih (h.push time _) fun q later hPending => ?_]
      · rw [show a.push time (.arrival p) = a.push time (Leg.arriving.event p) from rfl, hPush, hPush]
        cases other <;> simp
      · rcases pending_push hPending with ⟨hTime, _⟩ | hOld
        · exact Nat.le_of_eq hTime
        · exact last q later hOld

theorem on_popDue? {now : Instant} {event : Event} (due : a.popDue? now = some (event, rest))
    (leg : Leg) : a.on leg = (event.packet? leg).toList ++ rest.on leg := select_popDue? due

end Agenda

namespace Simulation

variable {α : Type} {s t : Simulation α}

/-- Nothing is on a leg for longer than it takes from now. -/
structure InTurn (s : Simulation α) : Prop where
  numbered : s.agenda.Numbered
  inTime : ∀ leg span, Leg.delay? s.options leg = some span →
    ∀ p time, s.agenda.Pending time (leg.event p) → time ≤ s.now + span

namespace InTurn

theorem congr (h : s.InTurn) (agenda : t.agenda = s.agenda) (options : t.options = s.options)
    (now_le : s.now ≤ t.now) : t.InTurn where
  numbered := agenda ▸ h.numbered
  inTime leg span hDelay p time hPending := by
    rw [options] at hDelay
    rw [agenda] at hPending
    exact Nat.le_trans (h.inTime leg span hDelay p time hPending) (Nat.add_le_add_right now_le span)

theorem push (h : s.InTurn) (time : Instant) (event : Event)
    (hTime : ∀ leg p span, event = leg.event p → Leg.delay? s.options leg = some span →
      time ≤ s.now + span) : InTurn { s with agenda := s.agenda.push time event } where
  numbered := h.numbered.push time event
  inTime leg span hDelay p later hPending := by
    rcases Agenda.pending_push hPending with ⟨rfl, hEvent⟩ | hOld
    · exact hTime leg p span hEvent.symm hDelay
    · exact h.inTime leg span hDelay p later hOld

/-- A packet sets out on a leg that takes every packet the same time. -/
theorem pushOn (h : s.InTurn) (leg : Leg) {span : Span}
    (hDelay : Leg.delay? s.options leg = some span) (p : Packet) :
    InTurn { s with agenda := s.agenda.push (s.now + span) (leg.event p) } := by
  refine h.push _ _ fun other q later hEvent hLater => ?_
  have hSame := congrArg (Event.packet? other) hEvent
  rw [leg.packet?_event, other.packet?_event, if_pos rfl] at hSame
  split at hSame
  · next hLeg =>
      rw [hLeg, hDelay] at hLater
      cases hLater
      exact Nat.le_refl _
  · cases hSame

theorem on_push (h : s.InTurn) (leg : Leg) {span : Span}
    (hDelay : Leg.delay? s.options leg = some span) (p : Packet) (other : Leg) :
    (s.agenda.push (s.now + span) (leg.event p)).on other =
      if other = leg then s.agenda.on leg ++ [p] else s.agenda.on other :=
  Agenda.on_push h.numbered leg (h.inTime leg span hDelay) p other

theorem popDue? (h : s.InTurn) {event : Event} {agenda : Agenda Event}
    (due : s.agenda.popDue? s.now = some (event, agenda)) :
    InTurn { s with agenda := agenda } where
  numbered := h.numbered.popDue? due
  inTime leg span hDelay p time hPending := by
    obtain ⟨_, _, _, hRest⟩ := Agenda.popDue?_eq_some due
    exact h.inTime leg span hDelay p time (hRest time _ hPending)

theorem handOver (h : s.InTurn) (id : Nat) (session : Session α) (packets : List Packet)
    (journal : List (Record α)) : (s.handOver id session packets journal).InTurn where
  numbered := h.numbered.foldl_push packets _ _
  inTime leg span hDelay p time hPending := by
    rcases Agenda.pending_foldl_push hPending with ⟨rfl, q, _, hEvent⟩ | hOld
    · have hLeg := congrArg (Event.packet? leg) hEvent
      rw [leg.packet?_event, if_pos rfl, Event.packet?] at hLeg
      split at hLeg
      · next hArriving =>
          subst hArriving
          cases hDelay
          exact Nat.le_refl _
      · cases hLeg
    · exact h.inTime leg span hDelay p time hOld

theorem on_handOver (h : s.InTurn) (id : Nat) (session : Session α) (packets : List Packet)
    (journal : List (Record α)) (leg : Leg) :
    (s.handOver id session packets journal).agenda.on leg =
      if leg = .arriving then s.agenda.on .arriving ++ packets else s.agenda.on leg :=
  Agenda.on_foldl_push h.numbered (h.inTime .arriving _ rfl) packets leg

section

variable [Scalar α]

theorem transmit (h : s.InTurn) : s.transmit.InTurn := by
  rcases s.transmit_cases with ⟨_, hIdle⟩ | ⟨p, link, _, hNext⟩
  · rw [hIdle]
    exact h.congr rfl rfl (Nat.le_refl _)
  · rw [hNext]
    have hPush := h.push (s.now + s.options.transmissionTime p.size) (.transmitted p)
      fun leg q span hEvent hDelay => ?_
    · exact hPush.congr rfl rfl (Nat.le_refl _)
    -- The link takes packets of several sizes, so it has no delay of its own.
    · cases leg with
      | sending => cases hDelay
      | arriving | leaving | returning => cases hEvent

/-- The link begins to send the head of its queue, or it stays idle with an empty queue. -/
theorem on_transmit (h : s.InTurn) (idle : s.agenda.on .sending = []) :
    (s.link.dequeue? = none ∧ s.transmit = { s with linkBusy := false }) ∨
    ∃ p link, s.link.dequeue? = some (p, link) ∧ s.transmit.link = link ∧
      s.transmit.linkBusy = true ∧
      ∀ leg, s.transmit.agenda.on leg = if leg = .sending then [p] else s.agenda.on leg := by
  rcases s.transmit_cases with hIdle | ⟨p, link, hHead, hNext⟩
  · exact Or.inl hIdle
  · refine Or.inr ⟨p, link, hHead, by rw [hNext], by rw [hNext], fun leg => ?_⟩
    have hNone (q : Packet) (later : Instant)
        (hPending : s.agenda.Pending later (Leg.sending.event q)) :
        later ≤ s.now + s.options.transmissionTime p.size := by
      have hMem := Agenda.mem_on.mpr ⟨later, hPending⟩
      rw [idle] at hMem
      cases hMem
    have hPush := Agenda.on_push h.numbered .sending hNone p leg
    rw [idle, List.nil_append] at hPush
    rw [hNext]
    exact hPush

end

end InTurn

variable [PowerScalar α]

theorem Carries.inTurn {event : Event} (step : Carries s event t) (h : s.InTurn) : t.InTurn := by
  cases step with
  | started journal | acknowledged journal => exact h.handOver _ _ _ journal
  | @arrived p t journal after =>
      have hQueued : t.InTurn := by
        subst after
        exact h.congr rfl rfl (Nat.le_refl _)
      split
      · exact hQueued
      · exact hQueued.transmit
  | @transmitted p t after =>
      have hSent : t.InTurn := by
        subst after
        exact (h.pushOn .leaving rfl p).congr rfl rfl (Nat.le_refl _)
      exact hSent.transmit
  | @delivered p session found =>
      exact (h.pushOn .returning rfl _).congr rfl rfl (Nat.le_refl _)
  | reported =>
      have hPush := h.push (s.now + Span.millis s.options.reportInterval) .report
        fun leg p span hEvent _ => by cases leg <;> cases hEvent
      exact hPush.congr rfl rfl (Nat.le_refl _)

theorem Advances.inTurn {move : Move} (step : Advances s move t) (h : s.InTurn) : t.InTurn := by
  cases step with
  | rested notEvent now_le options agenda => exact h.congr agenda options now_le
  | @expired key schedule session packets flow journal found call =>
      have hTaken : InTurn { s with schedule := schedule } := h.congr rfl rfl (Nat.le_refl _)
      exact hTaken.handOver _ _ _ journal
  | handled due carries => exact carries.inTurn (h.popDue? due)

omit [PowerScalar α] in
theorem inTurn_of_build [Scalar α] {o : Options α} {tables : WindowTables α}
    (built : build o tables = .ok s) : s.InTurn := by
  obtain ⟨_, _, _, _, _, rfl⟩ := build_eq built
  refine ⟨(Agenda.numbered_empty.foldl_push _ _ _).push _ _, fun leg span _ p time hPending => ?_⟩
  rcases pending_firstEvents hPending with ⟨id, _, hEvent⟩ | hEvent
  · cases leg <;> cases hEvent
  · cases leg <;> cases hEvent

end Simulation
end LoadFeedback
