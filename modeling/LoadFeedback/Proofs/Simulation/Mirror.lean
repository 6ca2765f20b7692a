import LoadFeedback.Proofs.Simulation.Components

/-! Deadlines are written down twice, in the components and in the schedule. Each handler copies those
of the one component that it has called, and no other deadline has changed meanwhile. -/
namespace LoadFeedback.Simulation

variable {α : Type}

/-- The timers that a component has. -/
def timersOf (owner : Nat) : List Timer := if owner = linkOwner then linkTimers else flowTimers

/-- The deadline that a component has for one of its timers. -/
def componentDeadline? (s : Simulation α) (key : TimerKey) : Option Instant :=
  if key.owner = linkOwner then s.link.meter.deadline? key.timer
  else (s.flow? key.owner).bind (·.deadline? key.timer)

theorem componentDeadline?_link (s : Simulation α) (timer : Timer) :
    s.componentDeadline? ⟨linkOwner, timer⟩ = s.link.meter.deadline? timer := if_pos rfl

/-- The schedule is in order, and has the deadlines that the components have. -/
structure Mirrored (s : Simulation α) : Prop where
  ordered : s.schedule.Ordered
  deadline : ∀ key, s.schedule.deadline? key = s.componentDeadline? key

theorem ordered_copyDeadlines {q : Schedule} (h : q.Ordered) (owner : Nat) (timers : List Timer)
    (deadline? : Timer → Option Instant) : (copyDeadlines q owner timers deadline?).Ordered := by
  induction timers generalizing q with
  | nil => exact h
  | cons timer rest ih => exact ih (h.assign ⟨owner, timer⟩ (deadline? timer))

theorem deadline?_copyDeadlines (q : Schedule) (owner : Nat) (timers : List Timer)
    (deadline? : Timer → Option Instant) (key : TimerKey) :
    (copyDeadlines q owner timers deadline?).deadline? key =
      if key.owner = owner ∧ key.timer ∈ timers then deadline? key.timer else q.deadline? key := by
  induction timers generalizing q with
  | nil => simp [copyDeadlines]
  | cons timer rest ih =>
      rw [copyDeadlines, List.foldl_cons, ← copyDeadlines, ih, Schedule.deadline?_assign]
      obtain ⟨other, kind⟩ := key
      by_cases hRest : kind ∈ rest
      · by_cases hOwner : other = owner <;> simp [hRest, hOwner]
      · by_cases hKind : kind = timer <;> by_cases hOwner : other = owner <;>
          simp [hRest, hOwner, hKind]

section

variable [Scalar α]

/-- A component arms none but its own timers. -/
theorem Fit.componentDeadline?_eq_none {s : Simulation α} (h : s.Fit) {key : TimerKey}
    (hTimer : key.timer ∉ timersOf key.owner) : s.componentDeadline? key = none := by
  unfold timersOf at hTimer
  unfold componentDeadline?
  split
  · next hOwner =>
      rw [if_pos hOwner] at hTimer
      exact h.link.idle key.timer hTimer
  · next hOwner =>
      rw [if_neg hOwner] at hTimer
      cases hFlow : s.flow? key.owner with
      | none => rfl
      | some f =>
          cases hDeadline : f.deadline? key.timer with
          | none => exact hDeadline
          | some deadline =>
              have hExpects := (h.flow key.owner f hFlow).aligned.expects hDeadline
              cases hKind : key.timer with
              | queueSampling | loadMeasurement =>
                  rw [hKind] at hExpects
                  exact hExpects.elim
              | holdDownFirst | holdDownSecond | pacing =>
                  rw [hKind] at hTimer
                  exact absurd (by decide) hTimer

/-- One component was called, and all its deadlines are copied. Before the copy one of its timers may
have been taken out. -/
theorem Mirrored.copy {s t : Simulation α} (h : s.Mirrored) (fit : s.Fit) (next : t.Fit)
    {owner : Nat} {q : Schedule} (ordered : q.Ordered)
    (taken : ∀ key, q.deadline? key = s.schedule.deadline? key ∨
      key.owner = owner ∧ q.deadline? key = none)
    {deadline? : Timer → Option Instant}
    (copied : t.schedule = copyDeadlines q owner (timersOf owner) deadline?)
    (own : ∀ timer, t.componentDeadline? ⟨owner, timer⟩ = deadline? timer)
    (same : ∀ key, key.owner ≠ owner → t.componentDeadline? key = s.componentDeadline? key) :
    t.Mirrored where
  ordered := copied ▸ ordered_copyDeadlines ordered owner _ _
  deadline key := by
    rw [copied, deadline?_copyDeadlines]
    split
    · next hCopied => rw [← own, ← hCopied.1]
    · next hOther =>
        by_cases hOwner : key.owner = owner
        -- A timer that is not copied is none of the component's own, so it was never armed.
        · have hTimer : key.timer ∉ timersOf key.owner := fun hMem => hOther ⟨hOwner, hOwner ▸ hMem⟩
          rw [next.componentDeadline?_eq_none hTimer]
          rcases taken key with hSame | ⟨_, hNone⟩
          · rw [hSame, h.deadline, fit.componentDeadline?_eq_none hTimer]
          · exact hNone
        · rcases taken key with hSame | ⟨hOwn, _⟩
          · rw [hSame, h.deadline, same key hOwner]
          · exact absurd hOwn hOwner

end

section

variable [Scalar α] {o : Options α} {tables : WindowTables α} {s : Simulation α}

/-- No flow has armed a timer before the start. -/
theorem componentDeadline?_of_build (built : build o tables = .ok s) (key : TimerKey)
    (hOwner : key.owner ≠ linkOwner) : s.componentDeadline? key = none := by
  rw [componentDeadline?, if_neg hOwner]
  cases hFlow : s.flow? key.owner with
  | none => rfl
  | some f =>
      obtain ⟨session, hFound, rfl⟩ := Option.map_eq_some_iff.mp hFlow
      rw [Option.bind_some, (session?_of_build built hFound).1]
      exact Controller.deadline?_start _ tables key.timer

theorem mirrored_of_build (built : build o tables = .ok s) : s.Mirrored := by
  have hSchedule : s.schedule =
      copyDeadlines .empty linkOwner linkTimers s.link.meter.deadline? := by
    obtain ⟨_, _, _, _, _, rfl⟩ := build_eq built
    rfl
  refine ⟨hSchedule ▸ ordered_copyDeadlines Schedule.ordered_empty _ _ _, fun key => ?_⟩
  rw [hSchedule, deadline?_copyDeadlines]
  split
  · next hLink => rw [componentDeadline?, if_pos hLink.1]
  · next hOther =>
      rw [Schedule.deadline?_empty]
      by_cases hOwner : key.owner = linkOwner
      · have hTimer : key.timer ∉ timersOf key.owner := fun hMem =>
          hOther ⟨hOwner, by rwa [hOwner] at hMem⟩
        exact ((fit_of_build built).componentDeadline?_eq_none hTimer).symm
      · exact (componentDeadline?_of_build built key hOwner).symm

end

theorem Mirrored.congr {s t : Simulation α} (h : s.Mirrored) (hSchedule : t.schedule = s.schedule)
    (hMeter : t.link.meter.timers = s.link.meter.timers) (hFlow : ∀ id, t.flow? id = s.flow? id) :
    t.Mirrored where
  ordered := hSchedule ▸ h.ordered
  deadline key := by
    rw [hSchedule, h.deadline]
    unfold componentDeadline? Meter.deadline?
    rw [hMeter, hFlow]

theorem Mirrored.transmit [Scalar α] {s : Simulation α} (h : s.Mirrored) : s.transmit.Mirrored := by
  obtain ⟨_, _, _, hSessions, hSchedule, hMeter⟩ := s.transmit_keeps
  exact h.congr hSchedule (by rw [hMeter]) (flow?_congr hSessions)

theorem componentDeadline?_handOver {s : Simulation α} {id : Nat} {session : Session α}
    (found : s.session? id = some session) (next : Session α) (packets : List Packet)
    (journal : List (Record α)) (key : TimerKey) :
    (s.handOver id next packets journal).componentDeadline? key =
      if key.owner = id then next.flow.deadline? key.timer else s.componentDeadline? key := by
  have hOwner := ne_linkOwner_of_session? found
  by_cases hLink : key.owner = linkOwner
  · rw [if_neg (hLink ▸ hOwner.symm)]
    simp only [componentDeadline?, if_pos hLink]
    rfl
  · simp only [componentDeadline?, if_neg hLink, flow?_handOver found]
    split <;> rfl

section

variable [Scalar α]

theorem Mirrored.handOver {s : Simulation α} {q : Schedule} {id : Nat} {session next : Session α}
    (h : s.Mirrored) (fit : s.Fit) (ordered : q.Ordered)
    (taken : ∀ key, q.deadline? key = s.schedule.deadline? key ∨
      key.owner = id ∧ q.deadline? key = none)
    (found : s.session? id = some session) {packets : List Packet} {journal : List (Record α)}
    (nextFit : ({ s with schedule := q }.handOver id next packets journal).Fit) :
    ({ s with schedule := q }.handOver id next packets journal).Mirrored := by
  have hOwner := ne_linkOwner_of_session? found
  have hDeadline (key : TimerKey) :=
    componentDeadline?_handOver (s := { s with schedule := q }) found next packets journal key
  have hCopied : ({ s with schedule := q }.handOver id next packets journal).schedule =
      copyDeadlines q id (timersOf id) next.flow.deadline? := by
    rw [timersOf, if_neg hOwner]
    rfl
  refine h.copy fit nextFit ordered taken hCopied (fun timer => ?_) fun key hKey => ?_
  · rw [hDeadline, if_pos rfl]
  · rw [hDeadline, if_neg hKey]
    rfl

/-- A timer that comes out is disarmed in the schedule, and its component is asked anew. -/
theorem Delivers.mirrored {s t : Simulation α} {key : TimerKey}
    (step : Delivers { s with schedule := s.schedule.cancel key } key t) (h : s.Mirrored)
    (fit : s.Fit) (armed : s.componentDeadline? key ≠ none) : t.Mirrored := by
  have nextFit : t.Fit := step.fit { fit with }
  have hTaken (other : TimerKey) : (s.schedule.cancel key).deadline? other =
      s.schedule.deadline? other ∨ other.owner = key.owner ∧
        (s.schedule.cancel key).deadline? other = none := by
    rw [Schedule.deadline?_cancel]
    split
    · next hEq => exact Or.inr ⟨by rw [hEq], rfl⟩
    · exact Or.inl rfl
  have hOrdered := h.ordered.cancel key
  cases step with
  | link journal taken =>
      refine h.copy fit nextFit hOrdered hTaken rfl (componentDeadline?_link _) fun other hOther => ?_
      simp only [componentDeadline?, if_neg hOther]
      rfl
  | flow journal found sink continues => exact h.handOver fit hOrdered hTaken found nextFit
  | ignored notLink nobody =>
      have hNone : s.flow? key.owner = none := by
        have hNobody : s.session? key.owner = none := nobody
        rw [flow?, hNobody, Option.map_none]
      refine absurd ?_ armed
      rw [componentDeadline?, if_neg notLink, hNone, Option.bind_none]

end

theorem Handles.mirrored [PowerScalar α] {s t : Simulation α} {event : Event}
    (step : Handles s event t) (h : s.Mirrored) (fit : s.Fit) : t.Mirrored := by
  have nextFit := step.fit fit
  cases step with
  | called journal found sink continues =>
      exact h.handOver fit h.ordered (fun _ => Or.inl rfl) found nextFit
  | @queued p t journal after =>
      have hQueued : t.Mirrored := by
        subst after
        exact h.congr rfl rfl fun _ => rfl
      split
      · exact hQueued
      · exact hQueued.transmit
  | @transmitted p t after =>
      have hSent : t.Mirrored := by
        rcases after with rfl | rfl <;> exact h.congr rfl rfl fun _ => rfl
      exact hSent.transmit
  | delivered found taken => exact h.congr rfl rfl (flow?_putSession found _)
  | answered found taken => exact h.congr rfl rfl (flow?_putSession found _)
  | reported => exact h.congr rfl rfl (flow?_sampled rfl)
  | ignored => exact h

end LoadFeedback.Simulation
