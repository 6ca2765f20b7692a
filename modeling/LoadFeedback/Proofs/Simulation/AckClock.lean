import LoadFeedback.Proofs.Exact.Bounds
import LoadFeedback.Proofs.Simulation.CommandLine
import LoadFeedback.Proofs.Simulation.Conveyance
import LoadFeedback.Proofs.Simulation.Soundness

/-! Packets come in order, and without a loss each acknowledgment lets the next packets leave. A flow
that has begun then always waits for an acknowledgment, for its window never closes. -/
namespace LoadFeedback

variable {α : Type}

/-- No round trip that is measured in the time of a simulation is longer. -/
def Options.longest (o : Options α) : Span :=
  max typicalRoundTrip (Span.secs o.duration)

/-- Arithmetic over which the windows of a simulation that was built stay open. -/
structure KeepsWindows (α : Type) [PowerScalar α] : Prop extends KeepsUnit α where
  sound : ∀ {o : Options α} {tables : WindowTables α} {s : Simulation α},
    Simulation.build o tables = .ok s → o.InWords → tables.Nonneg →
    (Simulation.senderConfig o).Sound tables fun estimate => estimate.smoothed ≤ o.longest

section

variable [PowerScalar α] {config : SenderConfig α} {tables : WindowTables α} {longest : Span}

namespace Strand.Evolves

variable {x y : Strand} {session next : Session α} {now : Instant}

/-- A flow that has begun does not begin again. -/
theorem startedAt (step : x.Evolves session now y next) (h : session.startedAt.isSome = true) :
    next.startedAt.isSome = true := by
  cases step with
  | rests flow sink startedAt => rwa [startedAt]
  | starts => rfl
  | loses | expires | delivers | hands => exact h

/-- The window of a flow keeps its bounds, as long as no round trip can be too long. -/
theorem sustained (step : x.Evolves session now y next)
    (h : session.flow.Sustained config tables longest)
    (sound : config.Sound tables fun estimate => estimate.smoothed ≤ longest) (laws : KeepsUnit α)
    (hNow : now ≤ longest) : next.flow.Sustained config tables longest := by
  cases step with
  | rests flow => rwa [flow]
  | loses | delivers => exact h
  | @starts packets flow call =>
      have hNext := h.after sound laws (.send now) (by simp) (by simp)
      rwa [Flow.after, call] at hNext
  | @expires timer packets flow call =>
      have hNext := h.after sound laws (.timer timer now) (by simp) (by simp)
      rwa [Flow.after, call] at hNext
  | @hands ack rest packets flow first call =>
      have hNext := h.after sound laws (.ack ack now) (by simp) fun p time hEvent => by
        cases hEvent
        exact hNow
      rwa [Flow.after, call] at hNext

end Strand.Evolves

end

namespace Simulation

variable [PowerScalar α] {o : Options α} {tables : WindowTables α} {s t u : Simulation α}
  {l : Ledger} {moves : List Move} {ids : List Nat}

/-- A flow whose start was handled has begun. -/
theorem Advances.startedAt {id : Nat} {now : Instant} (step : Advances s (.event (.start id) now) t)
    {session : Session α} (found : t.session? id = some session) :
    session.startedAt.isSome = true := by
  cases step with
  | rested notEvent => exact absurd rfl (notEvent _ _)
  | handled due carries =>
      cases carries with
      | started journal hOld call =>
          rw [session?_handOver hOld, if_pos rfl] at found
          cases found
          rfl

/-- What a move hands on from each session to its next state. -/
theorem Conveys.evolve (h : Conveys o ids moves l s) {move : Move} (last : Next s move (.running t)) :
    s.Evolve l t (s.entered l move) :=
  (h.advances last).evolve h.inTurn h.disciplined h.punctual.fit

theorem Recorded.begun (built : build o tables = .ok s) (recorded : Recorded s moves l t) {id : Nat}
    {now : Instant} (handled : Move.event (.start id) now ∈ moves) {session : Session α}
    (found : t.session? id = some session) : session.startedAt.isSome = true := by
  induction recorded generalizing session with
  | start => cases handled
  | next prior last ih =>
      have h := conveys_of_recorded built prior
      rcases List.mem_append.mp handled with hOld | hNew
      · obtain ⟨old, hFound, hEvolves⟩ := h.evolve last id session found
        exact hEvolves.startedAt (ih hOld hFound)
      · cases List.mem_singleton.mp hNew
        exact (h.advances last).startedAt found

/-- Every window keeps its bounds in every state. -/
theorem Recorded.sustained (built : build o tables = .ok s) (recorded : Recorded s moves l t)
    (keeps : KeepsWindows α) (words : o.InWords) (nonneg : tables.Nonneg) :
    ∀ id session, t.session? id = some session →
      session.flow.Sustained (senderConfig o) tables o.longest := by
  have hSound := keeps.sound built words nonneg
  induction recorded with
  | start =>
      intro id session hFound
      rw [(session?_of_build built hFound).1]
      exact .start hSound (Nat.le_max_left _ _) id _
  | next prior last ih =>
      intro id session hFound
      have h := conveys_of_recorded built prior
      obtain ⟨old, hOld, hEvolves⟩ := h.evolve last id session hFound
      have hNow := now_le_of_course built prior.course
      rw [endsAt, h.punctual.options_eq] at hNow
      exact hEvolves.sustained (ih id old hOld) hSound keeps.toKeepsUnit
        (Nat.le_trans hNow (Nat.le_max_right _ _))

/-- A flow that has begun always waits for an acknowledgment, until the numbers are used up. -/
theorem Recorded.waits (built : build o tables = .ok s) (recorded : Recorded s moves l t)
    (keeps : KeepsWindows α) (words : o.InWords) (nonneg : tables.Nonneg) {id : Nat}
    {session : Session α} (found : t.session? id = some session) {now : Instant}
    (handled : Move.event (.start id) now ∈ moves) (numbers : session.flow.nextSeq < Flow.maxSeq) :
    1 ≤ session.flow.nextSeq - session.flow.acked := by
  obtain ⟨hConserves, hClocks⟩ := (conveys_of_recorded built recorded).strands id session found
  obtain ⟨sent, hAccounted⟩ := hConserves.accounted
  have hBegun := recorded.begun built handled found
  have hSustained := recorded.sustained built keeps words nonneg id session found
  have hFloor := keeps.one_le_floor _ hSustained.window.admits.one_le
  have hLimit := hClocks.limit_eq
  rcases (hClocks.running hBegun).cases hAccounted.acked_le with hWaits | hShut | hMax | hMax
  · omega
  · change Scalar.floor session.flow.controller.state.window = 0 at hShut
    omega
  · omega
  · omega

/-- Over the real numbers the check of the senders accepts what the check of the link does. -/
theorem validate_senderConfig {o : Options ℝ} (h : 0 < (linkConfig o).measurementInterval) :
    (senderConfig o).validate = .ok () := by
  have hNone : (senderConfig o).fault? = none := by
    have hInterval : Span.millis o.measurementInterval ≠ 0 := Nat.ne_of_gt h
    norm_num [senderConfig, SenderConfig.setPacketSize, SenderConfig.fault?, SenderConfig.standard,
      SenderConfig.isGain, SenderConfig.boundFault?, Scalar.isFinite, hInterval]
  rw [SenderConfig.validate, hNone]

/-- The settings that a simulation has unless told otherwise are accepted over the real numbers too. -/
theorem exists_exact : ∃ s : Simulation ℝ, build .standard .standard = .ok s := by
  have hLink : (linkConfig (.standard : Options ℝ)).validate = .ok (10.0 * 1e6) := by
    norm_num [linkConfig, LinkConfig.standard, Options.standard, Options.bitsPerSecond,
      LinkConfig.validate, Span.millis, Link.isSupported, Link.minCapacity, Link.maxCapacity,
      Scalar.isFinite]
  have hInterval := (LinkConfig.accepted_of_validate hLink).measurementInterval_pos
  exact exists_of_validate hLink (validate_senderConfig hInterval) .standard

theorem keepsWindows_real : KeepsWindows ℝ where
  toKeepsUnit := keepsUnit_real
  sound built _ nonneg := by
    obtain ⟨_, _, _, hValid, _⟩ := build_eq built
    have hInterval := (LinkConfig.accepted_of_validate hValid).measurementInterval_pos
    exact SenderConfig.sound_of_validate (validate_senderConfig hInterval) nonneg _

/-- In every state of a simulation that was built: each receiver was handed packets with rising
numbers, and each sender acknowledgments that do not fall. As long as no packet of a flow was lost, the
receiver was handed all of them from zero on, the sender has seen no duplicate, and the packets that it
waits for are those on the legs and in the queue, or answered by an acknowledgment on its way. Once it
has begun there is at least one, where the arithmetic keeps the window open, until the numbers are used
up. -/
theorem delivered_in_order (built : build o tables = .ok s) (course : Course s moves t) :
    (∃ l, Recorded s moves l t ∧ ∀ id session, t.session? id = some session →
      (numbersOf id l.delivered).Pairwise (· < ·) ∧
      (numbersOf id l.handed).Pairwise (· ≤ ·) ∧
      (numbersOf id l.lost = [] →
        numbersOf id l.delivered = List.range (numbersOf id l.delivered).length ∧
        session.sink.cumulative = (numbersOf id l.delivered).length ∧
        session.flow.tally.duplicates = 0 ∧
        session.flow.nextSeq - session.flow.acked =
          (numbersOf id (t.agenda.on .arriving)).length + (numbersOf id t.link.queue.toList).length +
            (numbersOf id (t.agenda.on .sending)).length +
            (numbersOf id (t.agenda.on .leaving)).length +
            (numbersOf id (t.agenda.on .returning)).length ∧
        (KeepsWindows α → o.InWords → tables.Nonneg →
          (∃ now, Move.event (.start id) now ∈ moves) → session.flow.nextSeq < Flow.maxSeq →
          1 ≤ session.flow.nextSeq - session.flow.acked))) ∧
    ∀ steps, ∃ moves u, Course s moves u ∧
      (run steps s = .running u ∨ run steps s = .finished u) := by
  refine ⟨?_, course_of_run built⟩
  obtain ⟨l, hRecorded⟩ := course.recorded
  refine ⟨l, hRecorded, fun id session hFound => ?_⟩
  obtain ⟨hConserves, hClocks⟩ := (conveys_of_recorded built hRecorded).strands id session hFound
  refine ⟨(List.pairwise_append.mp hConserves.rising).1, (List.pairwise_append.mp hClocks.growing).1,
    fun hLost => ?_⟩
  obtain ⟨_, _, hDuplicates⟩ := hClocks.lossless hLost
  refine ⟨hConserves.delivered_eq hLost, hConserves.cumulative_eq hLost, hDuplicates, ?_, ?_⟩
  · rw [hClocks.inFlight_eq hConserves hLost]
    simp only [strand, underway, numbersOf_append, List.length_append]
    omega
  · rintro keeps words nonneg ⟨now, hStart⟩ hNumbers
    exact hRecorded.waits built keeps words nonneg hFound hStart hNumbers

/-- Over the real numbers no flow of the standard simulation stalls, wherever a run stands. -/
theorem standard_never_stalls :
    ∃ s : Simulation ℝ, build .standard .standard = .ok s ∧
      ∀ steps, ∃ moves t l, Recorded s moves l t ∧
        (run steps s = .running t ∨ run steps s = .finished t) ∧
        ∀ id session, t.session? id = some session → numbersOf id l.lost = [] →
          numbersOf id l.delivered = List.range (numbersOf id l.delivered).length ∧
          ((∃ now, Move.event (.start id) now ∈ moves) → session.flow.nextSeq < Flow.maxSeq →
            1 ≤ session.flow.nextSeq - session.flow.acked) := by
  obtain ⟨s, hBuilt⟩ := exists_exact
  refine ⟨s, hBuilt, fun steps => ?_⟩
  obtain ⟨moves, t, hCourse, hRun⟩ := course_of_run hBuilt steps
  obtain ⟨⟨l, hRecorded, hFlows⟩, _⟩ := delivered_in_order hBuilt hCourse
  refine ⟨moves, t, l, hRecorded, hRun, fun id session hFound hLost => ?_⟩
  obtain ⟨_, _, hLossless⟩ := hFlows id session hFound
  obtain ⟨hDelivered, _, _, _, hWaits⟩ := hLossless hLost
  exact ⟨hDelivered, hWaits keepsWindows_real Options.inWords_standard
    WindowTables.positive_standard.nonneg⟩

end Simulation
end LoadFeedback
