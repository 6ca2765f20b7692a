import LoadFeedback.Binary64
import LoadFeedback.Proofs.Simulation.Periods
import LoadFeedback.Proofs.Simulation.Traffic

/-! The guarantees of a simulation. Nothing that it hands to a component is refused, so a run ends only
where it should, and its clock is right all the time. -/
namespace LoadFeedback

variable {α : Type}

section

variable [Scalar α]

/-- Whether a timer may be delivered to the link now. -/
def Meter.Expects (m : Meter α) (now : Instant) : Timer → Prop
  | .queueSampling => True
  | .loadMeasurement => 0 < m.elapsed now
  | .holdDownFirst | .holdDownSecond | .pacing => False

theorem Meter.onTimer_of_expects {m : Meter α} {timer : Timer} {now : Instant}
    (h : m.Expects now timer) (queueBytes : Nat) :
    (m.onTimer timer now queueBytes).1 = .ok () := by
  have hStep := delivers_onTimer m timer now queueBytes
  generalize m.onTimer timer now queueBytes = result at hStep ⊢
  cases hStep with
  | sampled | measured => rfl
  | tooEarly hElapsed => exact absurd hElapsed (Nat.ne_of_gt h)
  | unused notSampling notMeasurement =>
      cases timer with
      | queueSampling => exact absurd rfl notSampling
      | loadMeasurement => exact absurd rfl notMeasurement
      | holdDownFirst | holdDownSecond | pacing => exact h.elim

end

namespace Simulation

/-- Whether a timer may be delivered to its owner now. -/
def Expects [Scalar α] (s : Simulation α) (key : TimerKey) : Prop :=
  if key.owner = linkOwner then s.link.meter.Expects s.now key.timer
  else ∃ session, s.session? key.owner = some session ∧ session.flow.controller.Expects key.timer

section

variable [Scalar α] {s : Simulation α}

/-- An armed timer that runs out now is one that its owner expects. -/
theorem Punctual.expects {o : Options α} {moves : List Move} (h : Punctual o moves s) {a : Alarm}
    (may : s.schedule.MayExpire s.now a) : s.Expects a.key := by
  have hDue := h.deadline_eq may
  unfold componentDeadline? at hDue
  unfold Expects
  split
  · next hOwner =>
      rw [if_pos hOwner] at hDue
      cases hTimer : a.key.timer with
      | queueSampling => trivial
      | loadMeasurement =>
          rw [hTimer] at hDue
          have hLength := h.fit.link.measurement_pos
          rw [h.fit.link.measurement_eq, h.options_eq] at hLength
          exact Nat.lt_of_lt_of_eq hLength (h.periodic.elapsed_eq hDue).symm
      | holdDownFirst | holdDownSecond | pacing =>
          -- The link never arms these.
          rw [hTimer, h.fit.link.idle _ (by decide)] at hDue
          cases hDue
  · next hOwner =>
      rw [if_neg hOwner] at hDue
      obtain ⟨f, hFlow, hDeadline⟩ := Option.bind_eq_some_iff.mp hDue
      obtain ⟨session, hFound, rfl⟩ := Option.map_eq_some_iff.mp hFlow
      exact ⟨session, hFound, (h.fit.flow _ _ hFlow).aligned.expects hDeadline⟩

theorem onTimer_of_expects {key : TimerKey} (h : s.Expects key) :
    ∃ t, s.onTimer key = (.ok (), t) := by
  unfold Expects at h
  unfold onTimer
  split at h
  · next hOwner =>
      have hTaken := Meter.onTimer_of_expects h (PacketQueue.bytes s.link.queue)
      have hLink : s.link.onTimer key.timer s.now = (.ok (), (s.link.onTimer key.timer s.now).2) :=
        Prod.ext hTaken rfl
      rw [if_pos hOwner, onLinkTimer, hLink]
      exact ⟨_, rfl⟩
  · next hOwner =>
      obtain ⟨session, hFound, hExpects⟩ := h
      obtain ⟨packets, flow, hTaken⟩ := Flow.onTimer_of_expects hExpects s.now
      rw [if_neg hOwner]
      simp only [hFound, onFlowTimer, hTaken]
      exact ⟨_, rfl⟩

end

section

variable [PowerScalar α] {o : Options α} {s : Simulation α}

/-- An acknowledgment on its way is one that its flow accepts. -/
theorem Returns.not_refuses {ack : Packet} (h : s.Returns ack) (fit : s.Fit) {session : Session α}
    (found : s.session? ack.flow = some session) : ¬session.flow.Refuses ack := by
  have hFlow := flow?_of_session? found
  rintro (hData | hAhead | ⟨_, hCoded, hCode⟩)
  · exact absurd (hData.symm.trans h.isAck) nofun
  · exact absurd (h.sent _ hFlow) (Nat.not_le_of_lt hAhead)
  · rw [(fit.flow _ _ hFlow).isCoded_eq] at hCoded
    exact h.coded (beq_iff_eq.mp hCoded) hCode

theorem onEvent_of_brings {event : Event} (h : s.Brings event) (orderly : s.Orderly) (fit : s.Fit) :
    ∃ t, s.onEvent event = (.ok (), t) := by
  cases event with
  | start id | arrival p | transmitted p | report => exact ⟨_, rfl⟩
  | delivery p =>
      simp only [onEvent, onDelivery]
      split
      · exact ⟨_, rfl⟩
      · next session hFound =>
          rw [(orderly.receivers p.flow session hFound).onData h.isData]
          exact ⟨_, rfl⟩
  | ackArrival ack =>
      simp only [onEvent, onAckArrival]
      split
      · exact ⟨_, rfl⟩
      · next session hFound =>
          have hAccepted := h.not_refuses fit hFound
          obtain ⟨packets, flow, hTaken⟩ := Flow.onAck_of_not_refuses hAccepted s.now
          rw [hTaken]
          exact ⟨_, rfl⟩

/-- Nothing is refused in a state that is punctual and orderly. -/
theorem Punctual.not_failed {moves : List Move} (h : Punctual o moves s) (orderly : s.Orderly)
    (move : Move) (fault : Fault) (t : Simulation α) : ¬Next s move (.failed fault t) := by
  intro hNext
  generalize hResult : Progress.failed fault t = result at hNext
  cases hNext with
  | instant | settled | quiet => cases hResult
  | @timer a turn may =>
      have hExpects : Expects { s with schedule := s.schedule.cancel a.key } a.key := h.expects may
      obtain ⟨u, hTaken⟩ := onTimer_of_expects hExpects
      rw [hTaken] at hResult
      cases hResult
  | event turn due =>
      obtain ⟨hRest, hBrings⟩ := orderly.popDue? due
      obtain ⟨u, hTaken⟩ := onEvent_of_brings hBrings hRest { h.fit with }
      rw [hTaken] at hResult
      cases hResult

variable {tables : WindowTables α}

/-- However many steps are taken, the simulation is at the end of a course. -/
theorem course_of_run (built : build o tables = .ok s) (steps : Nat) :
    ∃ moves t, Course s moves t ∧ (run steps s = .running t ∨ run steps s = .finished t) := by
  have hRun := course_run
    (fun _ _ course => (punctual_of_course built course).mirror.ordered) steps .start
  cases hResult : run steps s with
  | running t =>
      rw [hResult] at hRun
      obtain ⟨moves, hCourse⟩ := hRun
      exact ⟨moves, t, hCourse, Or.inl rfl⟩
  | finished t =>
      rw [hResult] at hRun
      obtain ⟨moves, hCourse⟩ := hRun
      exact ⟨moves, t, hCourse, Or.inr rfl⟩
  | failed fault t =>
      rw [hResult] at hRun
      obtain ⟨moves, last, move, hCourse, hNext⟩ := hRun
      have hOrderly := orderly_of_course built hCourse
      exact absurd hNext ((punctual_of_course built hCourse).not_failed hOrderly move fault t)

/-- A simulation that was built never fails, whichever of several timers of one instant comes first:
a timer is delivered when its owner expects it, the link measures intervals of some length, and an
acknowledgment on its way names no more packets than its flow has sent and, under the coded law,
carries a code. -/
theorem nothing_is_refused (built : build o tables = .ok s) :
    (∀ steps fault t, run steps s ≠ .failed fault t) ∧
    ∀ moves t, Course s moves t →
      (∀ move fault u, ¬Next t move (.failed fault u)) ∧
      (∀ key now result, Next t (.timer key now) result → t.Expects key) ∧
      (∀ now result, Next t (.timer ⟨linkOwner, .loadMeasurement⟩ now) result →
        0 < t.link.meter.elapsed now) ∧
      ∀ time ack, t.agenda.Pending time (.ackArrival ack) →
        ack.isData = false ∧
        (∀ session, t.session? ack.flow = some session → ack.seq ≤ session.flow.nextSeq) ∧
        (o.law = .coded → ack.feedback.code? ≠ none) := by
  refine ⟨fun steps fault t hFailed => ?_, fun moves t hCourse => ?_⟩
  · obtain ⟨moves, u, _, hRun | hRun⟩ := course_of_run built steps
    · cases hFailed.symm.trans hRun
    · cases hFailed.symm.trans hRun
  · have hPunctual := punctual_of_course built hCourse
    have hOrderly := orderly_of_course built hCourse
    have hExpects (key : TimerKey) (now : Instant) (result : Progress α)
        (hNext : Next t (.timer key now) result) : now = t.now ∧ t.Expects key := by
      cases hNext with
      | timer turn may => exact ⟨rfl, hPunctual.expects may⟩
    refine ⟨hPunctual.not_failed hOrderly, fun key now result hNext => (hExpects _ _ _ hNext).2,
      fun now result hNext => ?_, fun time ack hPending => ?_⟩
    · obtain ⟨rfl, hLink⟩ := hExpects _ _ _ hNext
      exact hLink
    · have hReturns : t.Returns ack := hOrderly.pending time _ hPending
      exact ⟨hReturns.isAck, fun session hFound => hReturns.sent _ (flow?_of_session? hFound),
        fun hLaw => hReturns.coded (hPunctual.options_eq ▸ hLaw)⟩

end

theorem exists_of_isOk [Scalar α] {o : Options α} {tables : WindowTables α}
    (h : (build o tables).isOk = true) : ∃ s, build o tables = .ok s := by
  cases hResult : build o tables with
  | ok s => exact ⟨s, rfl⟩
  | error fault => cases hResult ▸ h

/-- The settings that a simulation has unless told otherwise are accepted. -/
theorem exists_standard :
    ∃ s : Simulation Float, build .standard (.standard : WindowTables Float) = .ok s :=
  exists_of_isOk (by decide +kernel)

theorem standard_never_refused :
    ∃ s : Simulation Float, build .standard (.standard : WindowTables Float) = .ok s ∧
      ∀ steps fault t, run steps s ≠ .failed fault t := by
  obtain ⟨s, hBuilt⟩ := exists_standard
  exact ⟨s, hBuilt, (nothing_is_refused hBuilt).1⟩

section

variable [PowerScalar α] {o : Options α} {s : Simulation α} {tables : WindowTables α}

end

end Simulation
end LoadFeedback
