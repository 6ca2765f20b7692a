import LoadFeedback.Proofs.Agenda
import LoadFeedback.Proofs.Schedule
import LoadFeedback.Proofs.Simulation.Handlers

/-! The courses that a simulation can take. Which of several timers of one instant comes first is not
laid down, so one state may go on in several ways; the simulation that is run takes one of them. -/
namespace LoadFeedback.Simulation

variable {α : Type}

/-- One thing that a simulation does. -/
inductive Move where
  /-- It goes on to the next instant at which something is due. -/
  | instant (now : Instant)
  /-- A timer is delivered. -/
  | timer (key : TimerKey) (now : Instant)
  /-- No timer is due any more. -/
  | settled
  | event (event : Event) (now : Instant)
  /-- No event is due any more. -/
  | quiet
  deriving DecidableEq

/-- The instants to which a simulation went on, the first one first. -/
def instants (moves : List Move) : List Instant :=
  moves.filterMap fun
    | .instant now => some now
    | _ => none

/-- The instants at which a timer was delivered, the first one first. -/
def deliveries (key : TimerKey) (moves : List Move) : List Instant :=
  moves.filterMap fun
    | .timer delivered now => if delivered = key then some now else none
    | _ => none

variable [PowerScalar α]

/-- The ways in which a simulation can go on. Any of the earliest timers may come out first. -/
inductive Next (s : Simulation α) : Move → Progress α → Prop where
  | instant {now : Instant} (turn : s.turn = .advance) (due : s.nextInstant? = some now)
      (inTime : now ≤ s.endsAt) :
      Next s (.instant now) (.running { s with now := now, turn := .timers })
  | timer {a : Alarm} (turn : s.turn = .timers) (may : s.schedule.MayExpire s.now a) :
      Next s (.timer a.key s.now)
        (proceed ({ s with schedule := s.schedule.cancel a.key }.onTimer a.key))
  | settled (turn : s.turn = .timers) (ahead : ∀ a ∈ s.schedule.alarms, s.now < a.deadline) :
      Next s .settled (.running { s with turn := .events })
  | event {event : Event} {agenda : Agenda Event} (turn : s.turn = .events)
      (due : s.agenda.popDue? s.now = some (event, agenda)) :
      Next s (.event event s.now) (proceed ({ s with agenda := agenda }.onEvent event))
  | quiet (turn : s.turn = .events) (ahead : s.agenda.popDue? s.now = none) :
      Next s .quiet (.running { s with turn := .advance })

/-- The moves of a simulation from one state to another, none of them refused. -/
inductive Course (s : Simulation α) : List Move → Simulation α → Prop where
  | start : Course s [] s
  | next {moves : List Move} {move : Move} {t u : Simulation α}
      (prior : Course s moves t) (last : Next t move (.running u)) : Course s (moves ++ [move]) u

/-- What a move comes to, if it is not refused. -/
inductive Moves (s : Simulation α) : Move → Simulation α → Prop where
  | instant {now : Instant} (turn : s.turn = .advance) (due : s.nextInstant? = some now) :
      Moves s (.instant now) { s with now := now, turn := .timers }
  | timer {a : Alarm} {t : Simulation α} (turn : s.turn = .timers)
      (may : s.schedule.MayExpire s.now a)
      (delivers : Delivers { s with schedule := s.schedule.cancel a.key } a.key t) :
      Moves s (.timer a.key s.now) t
  | settled (turn : s.turn = .timers) (ahead : ∀ a ∈ s.schedule.alarms, s.now < a.deadline) :
      Moves s .settled { s with turn := .events }
  | event {event : Event} {agenda : Agenda Event} {t : Simulation α} (turn : s.turn = .events)
      (due : s.agenda.popDue? s.now = some (event, agenda))
      (handles : Handles { s with agenda := agenda } event t) :
      Moves s (.event event s.now) t
  | quiet (turn : s.turn = .events) (ahead : s.agenda.popDue? s.now = none) :
      Moves s .quiet { s with turn := .advance }

omit [PowerScalar α] in
theorem proceed_eq_running {result : Attempt (Simulation α) Unit} {t : Simulation α}
    (h : proceed result = .running t) : result = (.ok (), t) := by
  obtain ⟨outcome, s⟩ := result
  cases outcome with
  | ok _ =>
      cases h
      rfl
  | error fault => cases h

omit [PowerScalar α] in
theorem proceed_ne_finished (result : Attempt (Simulation α) Unit) (t : Simulation α) :
    proceed result ≠ .finished t := by
  obtain ⟨outcome, s⟩ := result
  cases outcome <;> nofun

theorem moves_of_next {s t : Simulation α} {move : Move} (h : Next s move (.running t)) :
    Moves s move t := by
  generalize hResult : Progress.running t = result at h
  cases h with
  | instant turn due inTime =>
      cases hResult
      exact .instant turn due
  | timer turn may => exact .timer turn may (delivers_onTimer (proceed_eq_running hResult.symm))
  | settled turn ahead =>
      cases hResult
      exact .settled turn ahead
  | event turn due => exact .event turn due (handles_onEvent (proceed_eq_running hResult.symm))
  | quiet turn ahead =>
      cases hResult
      exact .quiet turn ahead

/-- What every move keeps, every course keeps. -/
theorem Course.keeps {P : List Move → Simulation α → Prop} {s : Simulation α} (h : P [] s)
    (hStep : ∀ moves t move u, P moves t → Moves t move u → P (moves ++ [move]) u)
    {moves : List Move} {t : Simulation α} (course : Course s moves t) : P moves t := by
  induction course with
  | start => exact h
  | next prior last ih => exact hStep _ _ _ _ ih (moves_of_next last)

/-- A step takes one of the ways, or the simulation is over. -/
theorem next_step {s : Simulation α} (ordered : s.schedule.Ordered) :
    s.step = .finished s ∨ ∃ move, Next s move s.step := by
  unfold step
  split
  · next hTurn =>
      split
      · exact Or.inl rfl
      · next now hDue =>
          split
          · exact Or.inl rfl
          · next hInTime => exact Or.inr ⟨_, .instant hTurn hDue (Nat.le_of_not_lt hInTime)⟩
  · next hTurn =>
      split
      · next hNone => exact Or.inr ⟨_, .settled hTurn (ordered.popDue?_eq_none hNone)⟩
      · next key rest hSome =>
          obtain ⟨a, hMay, rfl, rfl⟩ := ordered.popDue?_eq_some hSome
          exact Or.inr ⟨_, .timer hTurn hMay⟩
  · next hTurn =>
      split
      · next hNone => exact Or.inr ⟨_, .quiet hTurn hNone⟩
      · next event rest hSome => exact Or.inr ⟨_, .event hTurn hSome⟩

/-- However many steps are taken, the simulation is at the end of a course, or a move from there was
refused. -/
theorem course_run {s : Simulation α}
    (ordered : ∀ moves t, Course s moves t → t.schedule.Ordered) (steps : Nat) {moves : List Move}
    {t : Simulation α} (course : Course s moves t) :
    match run steps t with
    | .running u | .finished u => ∃ moves, Course s moves u
    | .failed fault u =>
      ∃ moves last move, Course s moves last ∧ Next last move (.failed fault u) := by
  -- A step puts one more move at the end of the course, so the course varies in the induction.
  induction steps generalizing moves t with
  | zero => exact ⟨moves, course⟩
  | succ steps ih =>
      rw [run]
      rcases next_step (ordered moves t course) with hOver | ⟨move, hNext⟩
      · rw [hOver]
        exact ⟨moves, course⟩
      · cases hStep : t.step with
        | running u =>
            rw [hStep] at hNext
            exact ih (course.next hNext)
        | finished u =>
            generalize hResult : t.step = result at hNext
            rw [hStep] at hResult
            -- No move ends a simulation: it is over where there is none.
            cases hNext with
            | timer | event => exact absurd hResult.symm (proceed_ne_finished _ u)
            | instant | settled | quiet => cases hResult
        | failed fault u =>
            rw [hStep] at hNext
            exact ⟨moves, t, move, course, hNext⟩

end LoadFeedback.Simulation
