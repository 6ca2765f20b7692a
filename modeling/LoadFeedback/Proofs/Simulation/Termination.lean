import LoadFeedback.Proofs.Simulation.Soundness
import LoadFeedback.Proofs.Simulation.Work

/-! Whether a simulation comes to its end. Each instant is later than the one before it, a timer is
delivered once at an instant at most, and the work that the events can make is bounded. Only the reports
put themselves down again: where they take no time, the first of them is never the last one. -/
namespace LoadFeedback.Simulation

variable {α : Type} {s t u : Simulation α} {moves : List Move} {l : Ledger} {ids : List Nat}

/-- The timers of the link and of the flows. -/
def timerKeys (ids : List Nat) : List TimerKey :=
  (linkOwner :: ids).flatMap fun owner => (timersOf owner).map (TimerKey.mk owner)

/-- The timers that run out at the present instant. -/
def dueTimers (s : Simulation α) (ids : List Nat) : List TimerKey :=
  (timerKeys ids).filter fun key => s.componentDeadline? key = some s.now

/-- How many moves can follow at the present instant, those for events apart. -/
def remaining (s : Simulation α) (ids : List Nat) : Nat :=
  match s.turn with
  | .advance => 0
  | .timers => (s.dueTimers ids).length + 2
  | .events => 1

theorem mem_timerKeys {key : TimerKey} : key ∈ timerKeys ids ↔
    key.owner ∈ linkOwner :: ids ∧ key.timer ∈ timersOf key.owner := by
  rw [timerKeys, List.mem_flatMap]
  constructor
  · rintro ⟨owner, hOwner, hKey⟩
    obtain ⟨timer, hTimer, rfl⟩ := List.mem_map.mp hKey
    exact ⟨hOwner, hTimer⟩
  · rintro ⟨hOwner, hTimer⟩
    exact ⟨key.owner, hOwner, List.mem_map.mpr ⟨key.timer, hTimer, rfl⟩⟩

theorem length_filter_lt {β : Type} {p q : β → Bool} {xs : List β} (h : ∀ x, p x = true → q x = true)
    {x : β} (mem : x ∈ xs) (hq : q x = true) (hp : ¬p x = true) :
    (xs.filter p).length < (xs.filter q).length := by
  have hBoth : xs.filter p = (xs.filter q).filter p := by
    rw [List.filter_filter]
    congr 1
    funext y
    cases hy : p y with
    | false => rfl
    | true => rw [h y hy, Bool.and_self]
  rw [hBoth]
  exact List.length_filter_lt_length_iff_exists.mpr ⟨x, List.mem_filter.mpr ⟨mem, hq⟩, hp⟩

/-- Instants that rise up to one of them are no more than there are. -/
theorem length_le_of_rising {times : List Instant} {last : Instant}
    (rising : times.Pairwise (· < ·)) (reached : ∀ now ∈ times, now ≤ last) :
    times.length ≤ last + 1 := by
  have hNodup : times.Nodup := rising.imp Nat.ne_of_lt
  have hRange : times ⊆ List.range (last + 1) := fun now hNow =>
    List.mem_range.mpr (Nat.lt_succ_of_le (reached now hNow))
  have hLength := (List.subperm_of_subset hNodup hRange).length_le
  rwa [List.length_range] at hLength

section

variable [Scalar α]

/-- The link arms the timer that it was given for later. -/
theorem LinkFit.lt_of_onTimer {o : Options α} {m next : Meter α} (h : LinkFit o m) {timer : Timer}
    {now deadline : Instant} {queueBytes : Nat}
    (taken : m.onTimer timer now queueBytes = (.ok (), next))
    (armed : next.deadline? timer = some deadline) : now < deadline := by
  have hSet (t : Timetable) {span : Span} (hSpan : 0 < span)
      (hArmed : (t.setAfter timer now span).deadline? timer = some deadline) : now < deadline := by
    rw [Timetable.deadline?_setAfter, if_pos rfl] at hArmed
    cases hArmed
    exact Nat.lt_add_of_pos_right hSpan
  rcases Meter.onTimer_eq_ok taken with ⟨rfl, rfl⟩ | ⟨rfl, _, rfl⟩
  · have hSampling : 0 < m.samplingInterval := by
      rw [h.sampling_eq]
      exact sampling_pos o
    exact hSet _ hSampling armed
  · exact hSet _ h.measurement_pos armed

/-- A timer that was delivered is not armed for the same instant again. -/
theorem Fit.lt_of_onTimer (h : s.Fit) {key : TimerKey} (taken : s.onTimer key = (.ok (), t))
    {deadline : Instant} (armed : t.componentDeadline? key = some deadline) : s.now < deadline := by
  rcases (delivers_onTimer taken).meter with ⟨hOwner, _⟩ | ⟨hOwner, hMeter⟩
  · unfold onTimer at taken
    rw [if_neg hOwner] at taken
    split at taken
    · next hNobody =>
        cases taken
        rw [componentDeadline?, if_neg hOwner, flow?, hNobody] at armed
        cases armed
    · next session hFound =>
        unfold onFlowTimer at taken
        split at taken
        · cases taken
        · next packets flow hTaken =>
            cases taken
            obtain ⟨journal, hNext⟩ := handOver_eq hFound { session with flow := flow }
              (timerRecord? session.flow.controller key.timer) packets
            rw [hNext, componentDeadline?_handOver hFound, if_pos rfl,
              Flow.deadline?_onTimer hTaken] at armed
            cases armed
  · rw [componentDeadline?, if_pos hOwner] at armed
    exact h.link.lt_of_onTimer hMeter armed

theorem Fit.mem_timerKeys (h : s.Fit) (addressed : s.Addressed ids l) {key : TimerKey}
    {deadline : Instant} (armed : s.componentDeadline? key = some deadline) : key ∈ timerKeys ids := by
  refine Simulation.mem_timerKeys.mpr ⟨?_, ?_⟩
  · by_cases hOwner : key.owner = linkOwner
    · exact hOwner ▸ List.mem_cons_self
    · rw [componentDeadline?, if_neg hOwner] at armed
      obtain ⟨f, hFlow, _⟩ := Option.bind_eq_some_iff.mp armed
      obtain ⟨session, hFound, _⟩ := Option.map_eq_some_iff.mp hFlow
      exact List.mem_cons_of_mem _ (addressed.mem hFound)
  · refine Decidable.byContradiction fun hTimer => ?_
    rw [h.componentDeadline?_eq_none hTimer] at armed
    cases armed

/-- One timer fewer is due after each delivery. -/
theorem Punctual.dueTimers_lt {o : Options α} (h : Punctual o moves s) (addressed : s.Addressed ids l)
    {a : Alarm} (may : s.schedule.MayExpire s.now a)
    (taken : onTimer { s with schedule := s.schedule.cancel a.key } a.key = (.ok (), t)) :
    (t.dueTimers ids).length < (s.dueTimers ids).length := by
  have hTakenFit : Fit { s with schedule := s.schedule.cancel a.key } := { h.fit with }
  have hStep := delivers_onTimer taken
  have hNow : t.now = s.now := hStep.serves.now_eq
  have hDue := h.deadline_eq may
  refine length_filter_lt (fun key hKey => ?_) (h.fit.mem_timerKeys addressed hDue)
    (decide_eq_true hDue) fun hAgain => ?_
  · rcases hStep.armsAhead hTakenFit key t.now (of_decide_eq_true hKey) with hOld | hAhead
    · exact decide_eq_true (hNow ▸ hOld)
    · exact absurd hNow.symm (Nat.ne_of_lt hAhead)
  · exact absurd hNow.symm (Nat.ne_of_lt (hTakenFit.lt_of_onTimer taken (of_decide_eq_true hAgain)))

end

section

variable [PowerScalar α] {o : Options α} {tables : WindowTables α}

/-- Each move takes from what remains, and only the next instant adds to it: its timers, and the ends of
their turn and of that of the events. -/
theorem Conveys.work_remaining_lt (h : Conveys o ids moves l s) {move : Move}
    (last : Next s move (.running t)) (interval : 0 < o.reportInterval) (inTime : s.now ≤ s.endsAt) :
    t.work + t.remaining ids <
      s.work + s.remaining ids + (instants [move]).length * ((timerKeys ids).length + 3) := by
  have hBounded (id : Nat) (session : Session α) (found : t.session? id = some session) :
      session.flow.nextSeq ≤ Flow.maxSeq := by
    obtain ⟨_, hAccounted⟩ := ((h.next last).strands id session found).1.accounted
    exact hAccounted.nextSeq_le
  have hInterval : 0 < s.options.reportInterval := by rwa [h.punctual.options_eq]
  obtain ⟨hWork, hEvent⟩ := (h.advances last).work h.inTurn.numbered hBounded hInterval inTime
  generalize hResult : Progress.running t = result at last
  cases last with
  | @instant now turn due inTime =>
      cases hResult
      have hDue : (dueTimers { s with now := now, turn := .timers } ids).length ≤
          (timerKeys ids).length := List.length_filter_le _ _
      have hOne : (instants [.instant now]).length = 1 := rfl
      simp only [hOne, remaining, turn]
      omega
  | @timer a turn may =>
      have hTaken := proceed_eq_running hResult.symm
      have hTurn : t.turn = .timers := (delivers_onTimer hTaken).serves.turn_eq.trans turn
      have hFewer := h.punctual.dueTimers_lt h.addressed may hTaken
      simp only [remaining, hTurn, turn]
      omega
  | settled turn ahead =>
      cases hResult
      simp only [remaining, turn]
      omega
  | event turn due =>
      have hTaken := proceed_eq_running hResult.symm
      have hTurn : t.turn = .events := (handles_onEvent hTaken).serves.turn_eq.trans turn
      have hLess := hEvent _ _ rfl
      simp only [remaining, hTurn, turn]
      omega
  | quiet turn ahead =>
      cases hResult
      simp only [remaining, turn]
      omega

/-- On every course the moves and what remains are paid for by the instants and by the work at the
start. -/
theorem Recorded.length_add_le (built : build o tables = .ok s) (recorded : Recorded s moves l t)
    (interval : 0 < o.reportInterval) :
    moves.length + (t.work + t.remaining (List.range' 1 s.sessions.length)) ≤
      (instants moves).length * ((timerKeys (List.range' 1 s.sessions.length)).length + 3) + s.work := by
  induction recorded with
  | start =>
      obtain ⟨_, _, _, _, _, rfl⟩ := build_eq built
      simp [instants, remaining]
  | next prior last ih =>
      have hStep := (conveys_of_recorded built prior).work_remaining_lt last interval
        (now_le_of_course built prior.course)
      rw [List.length_append, List.length_singleton, instants_append, List.length_append, Nat.add_mul]
      omega

/-- A course has no more moves than the instants up to the end and the work at the start allow. -/
theorem length_le_of_course (built : build o tables = .ok s) (interval : 0 < o.reportInterval)
    (course : Course s moves t) : moves.length ≤
      (Span.secs o.duration + 1) * ((timerKeys (List.range' 1 s.sessions.length)).length + 3) +
        s.work := by
  obtain ⟨l, hRecorded⟩ := course.recorded
  have hPaid := hRecorded.length_add_le built interval
  have h := punctual_of_course built course
  have hNow := now_le_of_course built course
  rw [endsAt, h.options_eq] at hNow
  have hInstants := length_le_of_rising h.timely.rising fun now hMem =>
    Nat.le_trans (h.timely.reached now hMem) hNow
  have hMost := Nat.mul_le_mul_right
    ((timerKeys (List.range' 1 s.sessions.length)).length + 3) hInstants
  omega

/-- A step says that a simulation is over only where nothing is to come before the end. -/
theorem step_eq_finished (h : s.step = .finished t) :
    t = s ∧ s.turn = .advance ∧ ∀ now, s.nextInstant? = some now → s.endsAt < now := by
  unfold step at h
  split at h
  · next hTurn =>
      split at h
      · next hNone =>
          cases h
          exact ⟨rfl, hTurn, fun now hNow => absurd (hNone.symm.trans hNow) nofun⟩
      · next now hNow =>
          split at h
          · next hBeyond =>
              cases h
              refine ⟨rfl, hTurn, fun later hLater => ?_⟩
              rwa [← Option.some.inj (hNow.symm.trans hLater)]
          · cases h
  · split at h
    · cases h
    · exact absurd h (proceed_ne_finished _ t)
  · split at h
    · cases h
    · exact absurd h (proceed_ne_finished _ t)

theorem run_eq_finished {steps : Nat} (h : run steps s = .finished t) :
    t.turn = .advance ∧ ∀ now, t.nextInstant? = some now → t.endsAt < now := by
  induction steps generalizing s with
  | zero => cases h
  | succ steps ih =>
      rw [run] at h
      cases hStep : s.step with
      | running u =>
          rw [hStep] at h
          exact ih h
      | finished u =>
          rw [hStep] at h
          cases h
          obtain ⟨rfl, hOver⟩ := step_eq_finished hStep
          exact hOver
      | failed fault u =>
          rw [hStep] at h
          cases h

/-- A run that goes on has taken all its steps. -/
theorem course_of_run_running (built : build o tables = .ok s) {steps : Nat}
    (course : Course s moves t) (h : run steps t = .running u) :
    ∃ more, Course s (moves ++ more) u ∧ more.length = steps := by
  induction steps generalizing moves t with
  | zero =>
      cases h
      exact ⟨[], by rwa [List.append_nil], rfl⟩
  | succ steps ih =>
      rw [run] at h
      cases hStep : t.step with
      | running v =>
          rw [hStep] at h
          rcases next_step (punctual_of_course built course).mirror.ordered with hOver | ⟨move, hNext⟩
          · cases hStep.symm.trans hOver
          · rw [hStep] at hNext
            obtain ⟨more, hCourse, hLength⟩ := ih (course.next hNext) h
            refine ⟨move :: more, ?_, by rw [List.length_cons, hLength]⟩
            rwa [List.append_assoc] at hCourse
      | finished v | failed fault v =>
          rw [hStep] at h
          cases h

/-- One step more than any course has moves is a step too many. -/
theorem exists_finished (built : build o tables = .ok s) (interval : 0 < o.reportInterval) :
    ∃ most, (∀ moves t, Course s moves t → moves.length ≤ most) ∧
      ∃ moves t, Course s moves t ∧ run (most + 1) s = .finished t := by
  obtain ⟨most, hMost⟩ : ∃ most, ∀ moves t, Course s moves t → moves.length ≤ most :=
    ⟨_, fun moves t => length_le_of_course built interval⟩
  refine ⟨most, hMost, ?_⟩
  obtain ⟨moves, t, hCourse, hRunning | hFinished⟩ := course_of_run built (most + 1)
  · obtain ⟨more, hLonger, hLength⟩ := course_of_run_running built .start hRunning
    have hTooLong := hMost _ t hLonger
    rw [List.nil_append, hLength] at hTooLong
    exact absurd hTooLong (Nat.not_succ_le_self most)
  · exact ⟨moves, t, hCourse, hFinished⟩

/-- What is to come stays to come while another event is handled. -/
theorem Carries.pending {event : Event} (step : Carries s event t) (numbered : s.agenda.Numbered)
    {time : Instant} {other : Event} (h : s.agenda.Pending time other) :
    t.agenda.Pending time other := by
  have hTransmit (r : Simulation α) (hNumbered : r.agenda.Numbered)
      (hPending : r.agenda.Pending time other) : r.transmit.agenda.Pending time other := by
    rcases r.transmit_cases with ⟨_, hIdle⟩ | ⟨p, link, _, hNext⟩
    · rwa [hIdle]
    · rw [hNext]
      exact hPending.push hNumbered _ _
  cases step with
  | started | acknowledged => exact h.foldl_push numbered _ _ _
  | @arrived p t journal after =>
      have hQueued : t.agenda = s.agenda := by rw [after]
      split
      · rwa [hQueued]
      · exact hTransmit t (hQueued ▸ numbered) (hQueued ▸ h)
  | @transmitted p t after =>
      subst after
      exact hTransmit _ (numbered.push _ _) (h.push numbered _ _)
  | delivered | reported => exact h.push numbered _ _

theorem Carries.nextReport (step : Carries s .report t) (numbered : s.agenda.Numbered) :
    t.agenda.Pending (s.now + Span.millis s.options.reportInterval) .report := by
  cases step with
  | reported => exact Agenda.pending_push_self numbered _ _

/-- A report that takes no time puts down the next one for the same instant. -/
theorem Advances.pending_report {move : Move} (step : Advances s move t) (numbered : s.agenda.Numbered)
    (interval : s.options.reportInterval = 0) (h : s.agenda.Pending s.now .report) :
    t.agenda.Pending s.now .report := by
  cases step with
  | rested notEvent now_le options agenda => rwa [agenda]
  | expired => exact h.foldl_push numbered _ _ _
  | @handled event agenda t due carries =>
      have hNumbered := numbered.popDue? due
      by_cases hEvent : event = .report
      · subst hEvent
        have hNext := carries.nextReport hNumbered
        rwa [interval, Span.millis, Nat.zero_mul] at hNext
      · exact carries.pending hNumbered (h.popDue? due (Ne.symm hEvent))

theorem Recorded.pending_report (built : build o tables = .ok s) (recorded : Recorded s moves l t)
    (interval : o.reportInterval = 0) : t.now = 0 ∧ t.agenda.Pending 0 .report := by
  induction recorded with
  | start =>
      obtain ⟨_, _, _, _, _, rfl⟩ := build_eq built
      have hFirst : (firstEvents o (List.range' 1 o.flows)).Pending (Span.millis o.reportInterval)
          .report := Agenda.pending_push_self (Agenda.numbered_empty.foldl_push _ _ _) _ _
      rw [interval, Span.millis, Nat.zero_mul] at hFirst
      exact ⟨rfl, hFirst⟩
  | @next moves move l t u prior last ih =>
      obtain ⟨hNow, hPending⟩ := ih
      have h := conveys_of_recorded built prior
      have hStep := (h.advances last).pending_report h.inTurn.numbered
        (by rwa [h.punctual.options_eq]) (by rwa [hNow])
      rw [hNow] at hStep
      -- Nothing is overdue, so no instant can come after that of the report.
      have hTimely := ((h.next last).punctual.timely.events 0 .report hStep).1
      exact ⟨Nat.le_zero.mp hTimely, hStep⟩

omit [PowerScalar α] in
theorem exists_nextInstant? {time : Instant} {event : Event} (h : s.agenda.Pending time event) :
    ∃ now, s.nextInstant? = some now := by
  cases hNext : s.agenda.next? with
  | none => exact absurd h (Agenda.next?_eq_none hNext time event)
  | some first =>
      unfold nextInstant?
      rw [hNext]
      split
      · exact ⟨_, rfl⟩
      · contradiction
      · exact ⟨first, rfl⟩

/-- Where reports take no time, every run goes on, and stays at the start. -/
theorem runs_on_of_zero (built : build o tables = .ok s) (interval : o.reportInterval = 0)
    (steps : Nat) : ∃ t, run steps s = .running t ∧ t.now = 0 := by
  obtain ⟨moves, t, hCourse, hRun⟩ := course_of_run built steps
  obtain ⟨l, hRecorded⟩ := hCourse.recorded
  obtain ⟨hNow, hPending⟩ := hRecorded.pending_report built interval
  rcases hRun with hRunning | hFinished
  · exact ⟨t, hRunning, hNow⟩
  · obtain ⟨now, hNext⟩ := exists_nextInstant? hPending
    have hBeyond := (run_eq_finished hFinished).2 now hNext
    have hOrdered := (punctual_of_course built hCourse).mirror.ordered
    have hFirst := (nextInstant?_eq_some hOrdered hNext).2.1 0 .report hPending
    exact absurd (Nat.lt_of_lt_of_le hBeyond hFirst) (Nat.not_lt_zero _)

/-- Whichever of several timers of one instant comes first: if reports are apart, every course of a
simulation that was built has a bounded number of moves, and the run ends where nothing is to come up to
the end. A report interval of zero is accepted as well. Then no course leaves the first instant, and the
run goes on for ever. On no course does the clock pass its horizon, if from the start on it has room for
the duration. -/
theorem ends_unless_reports_take_no_time (built : build o tables = .ok s) :
    (0 < o.reportInterval → ∃ most, (∀ moves t, Course s moves t → moves.length ≤ most) ∧
      ∃ t, run (most + 1) s = .finished t ∧ t.turn = .advance ∧
        ∀ now, t.nextInstant? = some now → Span.secs o.duration < now) ∧
    (o.reportInterval = 0 → (∀ moves t, Course s moves t → t.now = 0) ∧
      ∀ steps, ∃ t, run steps s = .running t) ∧
    ∀ start, start + Span.secs o.duration < clockHorizon → ∀ moves t, Course s moves t →
      start + t.now < clockHorizon := by
  refine ⟨?_, ?_, fun start hRoom moves t hCourse => ?_⟩
  · intro interval
    obtain ⟨most, hMost, moves, t, hCourse, hFinished⟩ := exists_finished built interval
    obtain ⟨hTurn, hBeyond⟩ := run_eq_finished hFinished
    rw [endsAt, (punctual_of_course built hCourse).options_eq] at hBeyond
    exact ⟨most, hMost, t, hFinished, hTurn, hBeyond⟩
  · intro interval
    refine ⟨fun moves t hCourse => ?_, fun steps => ?_⟩
    · obtain ⟨l, hRecorded⟩ := hCourse.recorded
      exact (hRecorded.pending_report built interval).1
    · obtain ⟨t, hRunning, _⟩ := runs_on_of_zero built interval steps
      exact ⟨t, hRunning⟩
  · have hNow := now_le_of_course built hCourse
    rw [endsAt, (punctual_of_course built hCourse).options_eq] at hNow
    exact Nat.lt_of_le_of_lt (Nat.add_le_add_left hNow start) hRoom

end

/-- With the settings that a simulation has unless told otherwise. -/
theorem standard_ends :
    ∃ s : Simulation Float, build .standard (.standard : WindowTables Float) = .ok s ∧
      ∃ most, (∀ moves t, Course s moves t → moves.length ≤ most) ∧
        ∃ t, run (most + 1) s = .finished t ∧ t.turn = .advance ∧
          ∀ now, t.nextInstant? = some now → Span.secs 30 < now := by
  obtain ⟨s, hBuilt⟩ := exists_standard
  have hInterval : 0 < (.standard : Options Float).reportInterval := by decide
  exact ⟨s, hBuilt, (ends_unless_reports_take_no_time hBuilt).1 hInterval⟩

/-- One flow for one second, without a pause between the reports: the settings are accepted, and after
any number of steps the simulation is still at its start. -/
theorem standard_stands_without_report_interval :
    let o : Options Float :=
      { Options.standard with flows := 1, duration := 1, reportInterval := 0, level := none }
    ∃ s : Simulation Float, build o .standard = .ok s ∧
      ∀ steps, (∀ t, run steps s ≠ .finished t) ∧ ∃ t, run steps s = .running t ∧ t.now = 0 := by
  intro o
  obtain ⟨s, hBuilt⟩ : ∃ s, build o (.standard : WindowTables Float) = .ok s :=
    exists_of_isOk (by decide +kernel)
  refine ⟨s, hBuilt, fun steps => ?_⟩
  obtain ⟨t, hRunning, hNow⟩ := runs_on_of_zero hBuilt rfl steps
  refine ⟨fun u hFinished => ?_, t, hRunning, hNow⟩
  cases hRunning.symm.trans hFinished

end LoadFeedback.Simulation
