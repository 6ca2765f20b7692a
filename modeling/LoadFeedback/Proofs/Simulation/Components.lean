import LoadFeedback.Proofs.Simulation.Build
import LoadFeedback.Proofs.Simulation.Course

/-! What the components of a simulation are like on every course: each flow keeps its number and its
law, their armed timers are the ones they expect, and the link publishes codes where the flows want
codes. -/
namespace LoadFeedback.Simulation

variable {α : Type}

/-- The flow of a number. -/
def flow? (s : Simulation α) (id : Nat) : Option (Flow α) := (s.session? id).map (·.flow)

theorem flow?_of_session? {s : Simulation α} {id : Nat} {session : Session α}
    (found : s.session? id = some session) : s.flow? id = some session.flow := by
  rw [flow?, found, Option.map_some]

theorem flow?_handOver {s : Simulation α} {id : Nat} {session : Session α}
    (found : s.session? id = some session) (next : Session α) (packets : List Packet)
    (journal : List (Record α)) (other : Nat) :
    (s.handOver id next packets journal).flow? other =
      if other = id then some next.flow else s.flow? other := by
  have hSession : (s.handOver id next packets journal).session? other =
      (s.putSession id next).session? other := rfl
  rw [flow?, hSession, session?_putSession found]
  split <;> rfl

/-- A change of the receiver is none of the flows. -/
theorem flow?_putSession {s : Simulation α} {id : Nat} {session : Session α}
    (found : s.session? id = some session) (sink : Sink) (other : Nat) :
    (s.putSession id { session with sink := sink }).flow? other = s.flow? other := by
  rw [flow?, session?_putSession found]
  split
  · next hEq => rw [hEq, flow?_of_session? found, Option.map_some]
  · rfl

theorem flow?_congr {s t : Simulation α} (h : t.sessions = s.sessions) (id : Nat) :
    t.flow? id = s.flow? id := by
  simp only [flow?, session?, h]

theorem session?_sampled {s t : Simulation α} (h : t.sessions = s.sessions.map Session.sample)
    (id : Nat) : t.session? id = (s.session? id).map Session.sample := by
  cases id with
  | zero => rfl
  | succ i => simp only [session?, h, List.getElem?_map]

theorem flow?_sampled {s t : Simulation α} (h : t.sessions = s.sessions.map Session.sample)
    (id : Nat) : t.flow? id = s.flow? id := by
  rw [flow?, session?_sampled h, Option.map_map]
  rfl

section

variable [Scalar α]

theorem transmit_keeps (s : Simulation α) : s.transmit.now = s.now ∧ s.transmit.turn = s.turn ∧
    s.transmit.options = s.options ∧ s.transmit.sessions = s.sessions ∧
    s.transmit.schedule = s.schedule ∧ s.transmit.link.meter = s.link.meter := by
  rcases s.transmit_cases with ⟨_, hIdle⟩ | ⟨p, link, hHead, hNext⟩
  · rw [hIdle]
    exact ⟨rfl, rfl, rfl, rfl, rfl, rfl⟩
  · rw [hNext]
    exact ⟨rfl, rfl, rfl, rfl, rfl, MeteredQueue.meter_of_dequeue? hHead⟩

end

/-- What timers and events do to the flows, at an instant that stays the present one. -/
structure Serves (s t : Simulation α) : Prop where
  now_eq : t.now = s.now
  turn_eq : t.turn = s.turn
  options_eq : t.options = s.options
  flow : ∀ id f, t.flow? id = some f →
    ∃ old packets, s.flow? id = some old ∧ old.Continues s.now packets f

namespace Serves

variable {s t : Simulation α}

theorem of_same (hNow : t.now = s.now) (hTurn : t.turn = s.turn) (hOptions : t.options = s.options)
    (hFlow : ∀ id, t.flow? id = s.flow? id) : Serves s t where
  now_eq := hNow
  turn_eq := hTurn
  options_eq := hOptions
  flow id f hf := ⟨f, [], (hFlow id).symm.trans hf, .of_quiet rfl rfl (.refl _ _)⟩

theorem of_handOver {id : Nat} {session next : Session α} {packets : List Packet}
    (found : s.session? id = some session)
    (continues : session.flow.Continues s.now packets next.flow) (journal : List (Record α)) :
    Serves s (s.handOver id next packets journal) where
  now_eq := rfl
  turn_eq := rfl
  options_eq := rfl
  flow other f hf := by
    rw [flow?_handOver found] at hf
    split at hf
    · next hEq =>
        cases hf
        exact ⟨session.flow, packets, hEq ▸ flow?_of_session? found, continues⟩
    · exact ⟨f, [], hf, .of_quiet rfl rfl (.refl _ _)⟩

theorem transmit [Scalar α] (h : Serves s t) : Serves s t.transmit := by
  obtain ⟨hNow, hTurn, hOptions, hSessions, _, _⟩ := t.transmit_keeps
  refine ⟨hNow.trans h.now_eq, hTurn.trans h.turn_eq, hOptions.trans h.options_eq, fun id f hf => ?_⟩
  rw [flow?_congr hSessions] at hf
  exact h.flow id f hf

end Serves

theorem Delivers.serves [Scalar α] {s t : Simulation α} {key : TimerKey} (h : Delivers s key t) :
    Serves s t := by
  cases h with
  | link journal taken => exact .of_same rfl rfl rfl fun _ => rfl
  | flow journal found sink continues => exact .of_handOver found continues journal
  | ignored => exact .of_same rfl rfl rfl fun _ => rfl

section

variable [PowerScalar α] {s t : Simulation α} {event : Event}

theorem Handles.serves (h : Handles s event t) : Serves s t := by
  cases h with
  | called journal found sink continues => exact .of_handOver found continues journal
  | @queued p t journal after =>
      have hQueued : Serves s t := by
        subst after
        exact .of_same rfl rfl rfl fun _ => rfl
      split
      · exact hQueued
      · exact hQueued.transmit
  | @transmitted p t after =>
      have hSent : Serves s t := by
        rcases after with rfl | rfl <;> exact .of_same rfl rfl rfl fun _ => rfl
      exact hSent.transmit
  | delivered found taken => exact .of_same rfl rfl rfl (flow?_putSession found _)
  | answered found taken => exact .of_same rfl rfl rfl (flow?_putSession found _)
  | reported => exact .of_same rfl rfl rfl (flow?_sampled rfl)
  | ignored event => exact .of_same rfl rfl rfl fun _ => rfl

end

/-- Outside its timers the link only counts arrivals. -/
theorem Handles.meter [PowerScalar α] {s t : Simulation α} {event : Event} (h : Handles s event t) :
    t.link.meter = s.link.meter ∨ ∃ size, t.link.meter = s.link.meter.onArrival size := by
  cases h with
  | @queued p t journal after =>
      have hQueued : t.link.meter = s.link.meter.onArrival p.size := by
        subst after
        rfl
      split
      · exact Or.inr ⟨p.size, hQueued⟩
      · obtain ⟨_, _, _, _, _, hMeter⟩ := t.transmit_keeps
        exact Or.inr ⟨p.size, hMeter.trans hQueued⟩
  | @transmitted p t after =>
      obtain ⟨_, _, _, _, _, hMeter⟩ := t.transmit_keeps
      have hSent : t.link.meter = s.link.meter := by
        rcases after with rfl | rfl <;> rfl
      exact Or.inl (hMeter.trans hSent)
  | called | delivered | answered | reported | ignored => exact Or.inl rfl

/-- The link takes its timers, and nothing else on the way of a timer. -/
theorem Delivers.meter [Scalar α] {s t : Simulation α} {key : TimerKey} (h : Delivers s key t) :
    (key.owner ≠ linkOwner ∧ t.link.meter = s.link.meter) ∨
      (key.owner = linkOwner ∧ s.link.meter.onTimer key.timer s.now s.link.queue.bytes =
        (.ok (), t.link.meter)) := by
  cases h with
  | link journal taken =>
      refine Or.inr ⟨rfl, ?_⟩
      obtain ⟨hOutcome, rfl⟩ := Prod.mk.inj taken
      exact Prod.ext hOutcome rfl
  | flow journal found sink continues => exact Or.inl ⟨ne_linkOwner_of_session? found, rfl⟩
  | ignored notLink nobody => exact Or.inl ⟨notLink, rfl⟩

/-- What the link has of its own. -/
structure LinkFit [Scalar α] (o : Options α) (m : Meter α) : Prop where
  sampling_eq : m.samplingInterval = (linkConfig o).samplingInterval
  measurement_eq : m.measurementInterval = (linkConfig o).measurementInterval
  measurement_pos : 0 < m.measurementInterval
  idle : ∀ timer ∉ linkTimers, m.deadline? timer = none
  publishes : o.law = .coded → m.PublishesCode

namespace LinkFit

variable [Scalar α] {o : Options α} {m : Meter α}

theorem start {capacity : α} (h : (linkConfig o).validate = .ok capacity) (now : Instant) :
    LinkFit o (.start (linkConfig o) capacity now) where
  sampling_eq := rfl
  measurement_eq := rfl
  measurement_pos := (LinkConfig.accepted_of_validate h).measurementInterval_pos
  idle timer hTimer := by
    cases timer with
    | queueSampling | loadMeasurement => exact absurd (by decide) hTimer
    | holdDownFirst | holdDownSecond | pacing => rfl
  publishes hLaw := Meter.publishesCode_start (beq_iff_eq.mpr hLaw) capacity now

theorem sampling_pos (o : Options α) : 0 < (linkConfig o).samplingInterval :=
  (by decide : 0 < Span.millis 10)

theorem armsAhead_start {capacity : α} (h : (linkConfig o).validate = .ok capacity) (now : Instant) :
    Timetable.empty.ArmsAhead now (Meter.start (linkConfig o) capacity now).timers :=
  ((Timetable.ArmsAhead.refl now .empty).setAfter _ (sampling_pos o)).setAfter _
    (LinkConfig.accepted_of_validate h).measurementInterval_pos

theorem onArrival (h : LinkFit o m) (size : Nat) : LinkFit o (m.onArrival size) :=
  { h with }

/-- Each timer is armed for its own interval again, the other one stays. -/
theorem onTimer (h : LinkFit o m) {next : Meter α} {timer : Timer} {now : Instant} {queueBytes : Nat}
    (taken : m.onTimer timer now queueBytes = (.ok (), next)) :
    LinkFit o next ∧ m.timers.ArmsAhead now next.timers := by
  have hCode (hLaw : o.law = .coded) : next.PublishesCode := by
    have hNext := (h.publishes hLaw).onTimer timer now queueBytes
    rwa [taken] at hNext
  have hSame := Timetable.ArmsAhead.refl now m.timers
  rcases Meter.onTimer_eq_ok taken with ⟨rfl, rfl⟩ | ⟨rfl, _, rfl⟩
  · have hSampling : 0 < m.samplingInterval := by
      rw [h.sampling_eq]
      exact sampling_pos o
    refine ⟨{ h with idle := fun other hOther => ?_, publishes := hCode }, hSame.setAfter _ hSampling⟩
    have hNe : other ≠ .queueSampling := fun hEq => hOther (by simp [hEq, linkTimers])
    exact (Timetable.deadline?_setAfter _ _ _ _ _).trans ((if_neg hNe).trans (h.idle other hOther))
  · refine ⟨{ h with idle := fun other hOther => ?_, publishes := hCode },
      hSame.setAfter _ h.measurement_pos⟩
    have hNe : other ≠ .loadMeasurement := fun hEq => hOther (by simp [hEq, linkTimers])
    exact (Timetable.deadline?_setAfter _ _ _ _ _).trans ((if_neg hNe).trans (h.idle other hOther))

end LinkFit

/-- What the flow of a number has of its own. -/
structure FlowFit (o : Options α) (id : Nat) (f : Flow α) : Prop where
  id_eq : f.id = id
  aligned : f.controller.Aligned
  isCoded_eq : f.controller.isCoded = (o.law == .coded)

theorem FlowFit.continues {o : Options α} {id : Nat} {f g : Flow α} (h : FlowFit o id f) {now : Instant}
    {packets : List Packet} (step : f.Continues now packets g) : FlowFit o id g where
  id_eq := step.id_eq.trans h.id_eq
  aligned := step.controller.aligned h.aligned
  isCoded_eq := step.controller.isCoded_eq.trans h.isCoded_eq

/-- The link and all flows are as they should be. -/
structure Fit [Scalar α] (s : Simulation α) : Prop where
  link : LinkFit s.options s.link.meter
  flow : ∀ id f, s.flow? id = some f → FlowFit s.options id f

theorem fit_of_build [Scalar α] {o : Options α} {tables : WindowTables α} {s : Simulation α}
    (built : build o tables = .ok s) : s.Fit := by
  have hFlow (id : Nat) (f : Flow α) (hf : s.flow? id = some f) : FlowFit o id f := by
    obtain ⟨session, hFound, rfl⟩ := Option.map_eq_some_iff.mp hf
    rw [(session?_of_build built hFound).1]
    exact ⟨rfl, Controller.aligned_start _ tables, Controller.isCoded_start _ tables⟩
  obtain ⟨capacity, _, _, hValid, _, rfl⟩ := build_eq built
  exact ⟨.start hValid 0, hFlow⟩

theorem Serves.fit [Scalar α] {s t : Simulation α} (step : Serves s t) (h : s.Fit)
    (link : LinkFit s.options t.link.meter) : t.Fit where
  link := step.options_eq ▸ link
  flow id f hf := by
    obtain ⟨old, packets, hOld, hStep⟩ := step.flow id f hf
    rw [step.options_eq]
    exact (h.flow id old hOld).continues hStep

theorem Delivers.fit [Scalar α] {s t : Simulation α} {key : TimerKey} (step : Delivers s key t)
    (h : s.Fit) : t.Fit := by
  rcases step.meter with ⟨_, hMeter⟩ | ⟨_, hTaken⟩
  · exact step.serves.fit h (hMeter ▸ h.link)
  · exact step.serves.fit h (h.link.onTimer hTaken).1

section

variable [PowerScalar α] {s t : Simulation α}

theorem Handles.fit {event : Event} (step : Handles s event t) (h : s.Fit) : t.Fit := by
  rcases step.meter with hMeter | ⟨size, hMeter⟩
  · exact step.serves.fit h (hMeter ▸ h.link)
  · exact step.serves.fit h (hMeter ▸ h.link.onArrival size)

theorem Moves.fit {move : Move} (step : Moves s move t) (h : s.Fit) : t.Fit := by
  cases step with
  | timer turn may delivers => exact delivers.fit { h with }
  | event turn due handles => exact handles.fit { h with }
  | instant | settled | quiet => exact { h with }

end

end LoadFeedback.Simulation
