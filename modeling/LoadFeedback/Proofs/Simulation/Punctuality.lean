import LoadFeedback.Proofs.Simulation.Mirror

/-! Every timer is delivered at its deadline. Handlers arm timers and put down events for the present
instant at the earliest, and timers even later than that, so nothing is ever overdue, and the instants
of a course rise. -/
namespace LoadFeedback.Simulation

variable {α : Type}

/-- No component was armed for an instant that is not ahead. -/
def ArmsAhead (s t : Simulation α) : Prop :=
  ∀ key deadline, t.componentDeadline? key = some deadline →
    s.componentDeadline? key = some deadline ∨ s.now < deadline

theorem Serves.armsAhead {s t : Simulation α} (step : Serves s t)
    (link : s.link.meter.timers.ArmsAhead s.now t.link.meter.timers) : s.ArmsAhead t := by
  intro key deadline h
  unfold componentDeadline? at h ⊢
  split at h
  · next hOwner =>
      rw [if_pos hOwner]
      exact link key.timer deadline h
  · next hOwner =>
      rw [if_neg hOwner]
      obtain ⟨f, hFlow, hDeadline⟩ := Option.bind_eq_some_iff.mp h
      obtain ⟨old, packets, hOld, hStep⟩ := step.flow key.owner f hFlow
      rw [hOld, Option.bind_some]
      exact hStep.controller.armsAhead key.timer deadline hDeadline

theorem Delivers.armsAhead [Scalar α] {s t : Simulation α} {key : TimerKey}
    (step : Delivers s key t) (fit : s.Fit) : s.ArmsAhead t := by
  refine step.serves.armsAhead ?_
  rcases step.meter with ⟨_, hMeter⟩ | ⟨_, hTaken⟩
  · rw [hMeter]
    exact .refl _ _
  · exact (fit.link.onTimer hTaken).2

theorem Handles.armsAhead [PowerScalar α] {s t : Simulation α} {event : Event}
    (step : Handles s event t) : s.ArmsAhead t := by
  refine step.serves.armsAhead ?_
  rcases step.meter with hMeter | ⟨size, hMeter⟩
  · rw [hMeter]
    exact .refl _ _
  · rw [hMeter]
    exact .refl _ _

/-- No event was put down for the past. -/
def PlansAhead (s t : Simulation α) : Prop :=
  ∀ time event, t.agenda.Pending time event → s.agenda.Pending time event ∨ s.now ≤ time

theorem PlansAhead.push {s t : Simulation α} {span : Span} {event : Event}
    (h : t.agenda = s.agenda.push (s.now + span) event) : s.PlansAhead t := by
  intro time other hPending
  rw [h] at hPending
  rcases Agenda.pending_push hPending with ⟨rfl, _⟩ | hOld
  · exact Or.inr (Nat.le_add_right _ _)
  · exact Or.inl hOld

theorem plansAhead_handOver (s : Simulation α) (id : Nat) (session : Session α)
    (packets : List Packet) (journal : List (Record α)) :
    s.PlansAhead (s.handOver id session packets journal) := by
  intro time event hPending
  rcases Agenda.pending_foldl_push hPending with ⟨rfl, _⟩ | hOld
  · exact Or.inr (Nat.le_add_right _ _)
  · exact Or.inl hOld

theorem PlansAhead.of_eq {s t : Simulation α} (h : t.agenda = s.agenda) : s.PlansAhead t :=
  fun _ _ hPending => Or.inl (h ▸ hPending)

theorem PlansAhead.transmit [Scalar α] {s t : Simulation α} (h : s.PlansAhead t)
    (hNow : t.now = s.now) : s.PlansAhead t.transmit := by
  intro time event hPending
  rcases t.transmit_cases with ⟨_, hIdle⟩ | ⟨p, link, _, hNext⟩
  · rw [hIdle] at hPending
    exact h time event hPending
  · rw [hNext] at hPending
    rcases Agenda.pending_push hPending with ⟨rfl, _⟩ | hOld
    · exact Or.inr (hNow ▸ Nat.le_add_right _ _)
    · exact h time event hOld

theorem Delivers.plansAhead [Scalar α] {s t : Simulation α} {key : TimerKey}
    (step : Delivers s key t) : s.PlansAhead t := by
  cases step with
  | flow => exact plansAhead_handOver _ _ _ _ _
  | link | ignored => exact .of_eq rfl

theorem Handles.plansAhead [PowerScalar α] {s t : Simulation α} {event : Event}
    (step : Handles s event t) : s.PlansAhead t := by
  cases step with
  | called => exact plansAhead_handOver _ _ _ _ _
  | @queued p t journal after =>
      have hQueued : s.PlansAhead t ∧ t.now = s.now := by
        subst after
        exact ⟨.of_eq rfl, rfl⟩
      split
      · exact hQueued.1
      · exact hQueued.1.transmit hQueued.2
  | @transmitted p t after =>
      have hSent : s.PlansAhead t ∧ t.now = s.now := by
        rcases after with rfl | rfl
        · exact ⟨.of_eq rfl, rfl⟩
        · exact ⟨.push rfl, rfl⟩
      exact hSent.1.transmit hSent.2
  | answered | reported => exact .push rfl
  | delivered | ignored => exact .of_eq rfl

/-- Nothing is overdue. While the timers of an instant are delivered, some may be due at it; after that
they all lie ahead, and once the events of the instant are handled, so does everything else. -/
structure Timely (moves : List Move) (s : Simulation α) : Prop where
  timers : ∀ key deadline, s.componentDeadline? key = some deadline →
    s.now ≤ deadline ∧ (s.turn ≠ .timers → s.now < deadline)
  events : ∀ time event, s.agenda.Pending time event →
    s.now ≤ time ∧ (s.turn = .advance → moves ≠ [] → s.now < time)
  reached : ∀ now ∈ instants moves, now ≤ s.now
  rising : (instants moves).Pairwise (· < ·)

theorem timely_of_build [Scalar α] {o : Options α} {tables : WindowTables α} {s : Simulation α}
    (built : build o tables = .ok s) : Timely [] s := by
  have hFlows := componentDeadline?_of_build built
  obtain ⟨capacity, _, _, hValid, _, rfl⟩ := build_eq built
  refine ⟨fun key deadline hDeadline => ⟨Nat.zero_le _, fun _ => ?_⟩, fun time event _ =>
    ⟨Nat.zero_le _, fun _ hBegun => absurd rfl hBegun⟩, List.forall_mem_nil _, .nil⟩
  by_cases hOwner : key.owner = linkOwner
  · rw [componentDeadline?, if_pos hOwner] at hDeadline
    rcases LinkFit.armsAhead_start hValid 0 key.timer deadline hDeadline with hEmpty | hAhead
    · rw [Timetable.deadline?_empty] at hEmpty
      cases hEmpty
    · exact hAhead
  · rw [hFlows key hOwner] at hDeadline
    cases hDeadline

/-- A simulation goes on to the first instant at which something is due. -/
theorem nextInstant?_eq_some {s : Simulation α} (ordered : s.schedule.Ordered) {now : Instant}
    (h : s.nextInstant? = some now) :
    (∀ a ∈ s.schedule.alarms, now ≤ a.deadline) ∧
      (∀ time event, s.agenda.Pending time event → now ≤ time) ∧
      ((∃ a ∈ s.schedule.alarms, a.deadline = now) ∨ ∃ event, s.agenda.Pending now event) := by
  unfold nextInstant? at h
  cases hTimer : s.schedule.next? with
  | none =>
      have hNoAlarm := Schedule.next?_eq_none hTimer
      simp only [hTimer] at h
      obtain ⟨hFirst, hEvents⟩ := Agenda.next?_eq_some h
      exact ⟨by simp [hNoAlarm], hEvents, Or.inr hFirst⟩
  | some a =>
      have hAlarms := ordered.next?_eq_some hTimer
      have hAlarm := Schedule.exists_of_next? hTimer
      cases hEvent : s.agenda.next? with
      | none =>
          simp only [hTimer, hEvent] at h
          cases h
          exact ⟨hAlarms, fun time event hPending =>
            absurd hPending (Agenda.next?_eq_none hEvent time event), Or.inl hAlarm⟩
      | some b =>
          simp only [hTimer, hEvent] at h
          cases h
          obtain ⟨hFirst, hEvents⟩ := Agenda.next?_eq_some hEvent
          refine ⟨fun alarm hMem => Nat.le_trans (Nat.min_le_left a b) (hAlarms alarm hMem),
            fun time event hPending => Nat.le_trans (Nat.min_le_right a b) (hEvents time event hPending),
            ?_⟩
          rcases Nat.le_total a b with hLe | hLe
          · rw [Nat.min_eq_left hLe]
            exact Or.inl hAlarm
          · rw [Nat.min_eq_right hLe]
            exact Or.inr hFirst

theorem Mirrored.mem_iff {s : Simulation α} (h : s.Mirrored) (a : Alarm) :
    a ∈ s.schedule.alarms ↔ s.componentDeadline? a.key = some a.deadline := by
  rw [h.ordered.mem_iff, h.deadline]

theorem instants_append (moves : List Move) (move : Move) :
    instants (moves ++ [move]) = instants moves ++ instants [move] :=
  List.filterMap_append

namespace Timely

variable {moves : List Move} {s t : Simulation α}

/-- A move at the present instant, which reaches no other one. -/
theorem stay {move : Move} (h : Timely moves s) (hMove : instants [move] = [])
    (hNow : t.now = s.now)
    (timers : ∀ key deadline, t.componentDeadline? key = some deadline →
      s.now ≤ deadline ∧ (t.turn ≠ .timers → s.now < deadline))
    (events : ∀ time event, t.agenda.Pending time event →
      s.now ≤ time ∧ (t.turn = .advance → s.now < time)) :
    Timely (moves ++ [move]) t where
  timers := hNow ▸ timers
  events time event hPending := by
    obtain ⟨hLe, hLt⟩ := events time event hPending
    rw [hNow]
    exact ⟨hLe, fun hTurn _ => hLt hTurn⟩
  reached := by
    rw [instants_append, hMove, List.append_nil, hNow]
    exact h.reached
  rising := by
    rw [instants_append, hMove, List.append_nil]
    exact h.rising

/-- The next instant lies ahead of all those that were reached. -/
theorem reached_lt (h : Timely moves s) (mirror : s.Mirrored) (turn : s.turn = .advance)
    {now : Instant} (due : s.nextInstant? = some now) : ∀ past ∈ instants moves, past < now := by
  intro past hPast
  have hBegun : moves ≠ [] := by
    rintro rfl
    cases hPast
  refine Nat.lt_of_le_of_lt (h.reached past hPast) ?_
  obtain ⟨_, _, ⟨a, ha, rfl⟩ | ⟨event, hFirst⟩⟩ := nextInstant?_eq_some mirror.ordered due
  · exact (h.timers a.key a.deadline ((mirror.mem_iff a).mp ha)).2 (by rw [turn]; decide)
  · exact (h.events now event hFirst).2 turn hBegun

end Timely

variable [PowerScalar α]

theorem Moves.mirrored {s t : Simulation α} {move : Move} (step : Moves s move t) (h : s.Mirrored)
    (fit : s.Fit) : t.Mirrored := by
  cases step with
  | @timer a t turn may delivers =>
      have hArmed := (h.mem_iff a).mp may.armed
      exact delivers.mirrored h fit (by rw [hArmed]; exact Option.some_ne_none _)
  | event turn due handles => exact handles.mirrored (h.congr rfl rfl fun _ => rfl) { fit with }
  | instant | settled | quiet => exact h.congr rfl rfl fun _ => rfl

theorem Moves.timely {moves : List Move} {s t : Simulation α} {move : Move} (step : Moves s move t)
    (h : Timely moves s) (mirror : s.Mirrored) (fit : s.Fit) : Timely (moves ++ [move]) t := by
  cases step with
  | @instant now turn due =>
      obtain ⟨hAlarms, hEvents, _⟩ := nextInstant?_eq_some mirror.ordered due
      have hPast := h.reached_lt mirror turn due
      constructor
      case timers =>
        intro key deadline hDeadline
        exact ⟨hAlarms ⟨key, deadline⟩ ((mirror.mem_iff ⟨key, deadline⟩).mpr hDeadline),
          fun hTurn => absurd rfl hTurn⟩
      case events => exact fun time event hPending => ⟨hEvents time event hPending, nofun⟩
      case reached =>
        rw [instants_append]
        intro past hMem
        rcases List.mem_append.mp hMem with hOld | hNew
        · exact Nat.le_of_lt (hPast past hOld)
        · exact Nat.le_of_eq (List.mem_singleton.mp hNew)
      case rising =>
        rw [instants_append]
        refine List.pairwise_append.mpr ⟨h.rising, List.pairwise_singleton _ _, ?_⟩
        intro past hOld next hNew
        rw [List.mem_singleton.mp hNew]
        exact hPast past hOld
  | @timer a t turn may delivers =>
      have hServes := delivers.serves
      have hTurn : t.turn = .timers := hServes.turn_eq.trans turn
      refine h.stay rfl hServes.now_eq (fun key deadline hDeadline => ?_) fun time event hPending => ?_
      · refine ⟨?_, fun hNot => absurd hTurn hNot⟩
        rcases delivers.armsAhead { fit with } key deadline hDeadline with hOld | hAhead
        · exact (h.timers key deadline hOld).1
        · exact Nat.le_of_lt hAhead
      · refine ⟨?_, fun hAdvance => absurd (hTurn.symm.trans hAdvance) nofun⟩
        rcases delivers.plansAhead time event hPending with hOld | hNew
        · exact (h.events time event hOld).1
        · exact hNew
  | settled turn ahead =>
      -- No timer is due any more, so all of them lie ahead when the events begin.
      refine h.stay rfl rfl (fun key deadline hDeadline => ?_) fun time event hPending =>
        ⟨(h.events time event hPending).1, nofun⟩
      have hAhead := ahead ⟨key, deadline⟩ ((mirror.mem_iff ⟨key, deadline⟩).mpr hDeadline)
      exact ⟨Nat.le_of_lt hAhead, fun _ => hAhead⟩
  | @event event agenda t turn due handles =>
      have hServes := handles.serves
      have hTurn : t.turn = .events := hServes.turn_eq.trans turn
      obtain ⟨_, _, _, hRest⟩ := Agenda.popDue?_eq_some due
      refine h.stay rfl hServes.now_eq (fun key deadline hDeadline => ?_) fun time other hPending => ?_
      -- An event arms timers for later only, so none becomes due among the events.
      · have hAhead : s.now < deadline := by
          rcases handles.armsAhead key deadline hDeadline with hOld | hAhead
          · exact (h.timers key deadline hOld).2 (by rw [turn]; decide)
          · exact hAhead
        exact ⟨Nat.le_of_lt hAhead, fun _ => hAhead⟩
      · refine ⟨?_, fun hAdvance => absurd (hTurn.symm.trans hAdvance) nofun⟩
        rcases handles.plansAhead time other hPending with hOld | hNew
        · exact (h.events time other (hRest time other hOld)).1
        · exact hNew
  | quiet turn ahead =>
      refine h.stay rfl rfl (fun key deadline hDeadline => ?_) fun time event hPending => ?_
      · have hAhead := (h.timers key deadline hDeadline).2 (by rw [turn]; decide)
        exact ⟨Nat.le_of_lt hAhead, fun _ => hAhead⟩
      · have hAhead := Agenda.popDue?_eq_none ahead hPending
        exact ⟨Nat.le_of_lt hAhead, fun _ => hAhead⟩

end LoadFeedback.Simulation
