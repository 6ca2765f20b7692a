import LoadFeedback.Proofs.Binary64.Positive
import LoadFeedback.Proofs.Link.Accounts

/-! Calls that a link refuses, and changes of its capacity. A refused call changes nothing, and a new
capacity nothing but the targets that follow from it. So the target of a link is always that of its
capacity, and a measurement never divides by zero. -/
namespace LoadFeedback

section

variable {α : Type} [Scalar α]

theorem Link.isSupported_iff (capacity : α) :
    isSupported capacity = true ↔ minCapacity ≤ capacity ∧ capacity ≤ maxCapacity := by
  rw [isSupported, Bool.and_eq_true, decide_eq_true_eq, decide_eq_true_eq]

/-- The target is that of one of the bands. -/
theorem Link.exists_target_eq (capacity : α) :
    ∃ value ∈ targetBands.map (·.2), target capacity = Scalar.clamp minTarget maxTarget value := by
  unfold target
  dsimp only
  cases hLast : (targetBands.takeWhile fun band => band.1 ≤ capacity).getLast? with
  | none => exact ⟨0.80, List.mem_cons_self, rfl⟩
  | some band =>
      have hBand := List.takeWhile_subset _ (List.mem_of_getLast? hLast)
      exact ⟨band.2, List.mem_map_of_mem hBand, rfl⟩

namespace Meter

/-- The measurement of a link that has got another capacity. -/
def retargeted (m : Meter α) (capacity : α) : Meter α :=
  { m with
    reading := { m.reading with capacity := capacity, target := Link.target capacity }
    dynamicTarget := Link.target capacity
    targetStep := Link.targetStep (Link.target capacity) }

theorem setCapacity_of_supported {capacity : α} (h : Link.isSupported capacity = true) (m : Meter α) :
    m.setCapacity capacity = (.ok (), m.retargeted capacity) :=
  if_pos h

theorem setCapacity_of_not_supported {capacity : α} (h : ¬Link.isSupported capacity = true)
    (m : Meter α) : m.setCapacity capacity = (.error (.capacityOutOfRange capacity), m) :=
  if_neg h

omit [Scalar α] in
theorem elapsed_eq_zero_iff (m : Meter α) (now : Instant) :
    m.elapsed now = 0 ↔ now ≤ m.intervalStart :=
  Nat.sub_eq_zero_iff_le

theorem measure_eq_error {m : Meter α} {now : Instant} (h : now ≤ m.intervalStart) :
    m.measure now = (.error .emptyInterval, m) :=
  if_pos ((m.elapsed_eq_zero_iff now).mpr h)

theorem onTimer_loadMeasurement_eq_error {m : Meter α} {now : Instant} (h : now ≤ m.intervalStart)
    (queueBytes : Nat) : m.onTimer .loadMeasurement now queueBytes = (.error .emptyInterval, m) := by
  simp only [onTimer, measure_eq_error h]

theorem onTimer_eq_unused {timer : Timer} (notSampling : timer ≠ .queueSampling)
    (notMeasurement : timer ≠ .loadMeasurement) (m : Meter α) (now : Instant) (queueBytes : Nat) :
    m.onTimer timer now queueBytes = (.error (.unusedByLink timer), m) := by
  have hStep := delivers_onTimer m timer now queueBytes
  generalize m.onTimer timer now queueBytes = result at hStep ⊢
  cases hStep with
  | sampled => exact absurd rfl notSampling
  | measured | tooEarly => exact absurd rfl notMeasurement
  | unused => rfl

/-- A measurement that is taken has some length. -/
theorem elapsed_pos_of_measure_eq_ok {m : Meter α} {now : Instant} {f : FeedbackField}
    (h : (m.measure now).1 = .ok f) : 0 < m.elapsed now := by
  rcases m.measure_cases now with ⟨_, hResult⟩ | ⟨hElapsed, _⟩
  · rw [hResult] at h
    cases h
  · exact hElapsed

/-- The capacity is supported, and the targets are those of the capacity. -/
structure Aims (m : Meter α) : Prop where
  supported : Link.isSupported m.reading.capacity = true
  target_eq : m.reading.target = Link.target m.reading.capacity
  dynamicTarget_eq : m.dynamicTarget = Link.target m.reading.capacity

namespace Aims

variable {m : Meter α}

/-- Where capacity and targets stay, so does their relation. -/
theorem congr (h : m.Aims) {n : Meter α} (capacity : n.reading.capacity = m.reading.capacity)
    (target : n.reading.target = m.reading.target) (dynamicTarget : n.dynamicTarget = m.dynamicTarget) :
    n.Aims where
  supported := by rw [capacity]; exact h.supported
  target_eq := by rw [target, capacity]; exact h.target_eq
  dynamicTarget_eq := by rw [dynamicTarget, capacity]; exact h.dynamicTarget_eq

theorem retargeted {capacity : α} (supported : Link.isSupported capacity = true) (m : Meter α) :
    (m.retargeted capacity).Aims :=
  ⟨supported, rfl, rfl⟩

theorem reset (h : m.Aims) (now : Instant) : (m.reset now).Aims :=
  ⟨h.supported, h.target_eq, h.target_eq⟩

theorem start (config : LinkConfig α) {capacity : α} (supported : Link.isSupported capacity = true)
    (now : Instant) : (Meter.start config capacity now).Aims :=
  ⟨supported, rfl, rfl⟩

theorem after (h : m.Aims) (event : MeterEvent α) : (m.after event).Aims := by
  have hStep := m.proceeds_after event
  obtain ⟨_, _, _, hCount⟩ := m.count_eq (m.counted? event)
  generalize m.after event = next at hStep ⊢
  cases hStep with
  | counted _ timers =>
      rw [hCount]
      exact h.congr rfl rfl rfl
  | measured _ _ timers =>
      rw [hCount]
      exact h.congr rfl rfl rfl
  | capacity capacity =>
      by_cases hSupported : Link.isSupported capacity = true
      · rw [setCapacity_of_supported hSupported]
        exact retargeted hSupported m
      · rw [setCapacity_of_not_supported hSupported]
        exact h
  | reset now => exact h.reset now

theorem run (h : m.Aims) (events : List (MeterEvent α)) : (m.run events).Aims := by
  induction events generalizing m with
  | nil => exact h
  | cons event rest ih => exact ih (h.after event)

end Aims
end Meter

/-- The measurement of a link makes a run of its own. -/
theorem MeteredQueue.exists_meter_run {κ : Type} [PacketQueue κ] (l : MeteredQueue κ α)
    (events : List (LinkEvent α)) : ∃ seen, (events.foldl after l).meter = l.meter.run seen := by
  induction events generalizing l with
  | nil => exact ⟨[], rfl⟩
  | cons event rest ih =>
      obtain ⟨seen, hSeen⟩ := ih (l.after event)
      rcases l.meter_after event with hSame | ⟨e, hAfter⟩
      · refine ⟨seen, ?_⟩
        rw [List.foldl_cons, hSeen, hSame]
      · refine ⟨e :: seen, ?_⟩
        rw [List.foldl_cons, hSeen, hAfter]
        rfl

end

theorem Link.target_mem_range (capacity : Float) :
    0.80 ≤ target capacity ∧ target capacity ≤ 0.98 ∧ 0.0 < target capacity := by
  have hBands : ∀ value ∈ (targetBands : List (Float × Float)).map (·.2),
      0.80 ≤ Scalar.clamp minTarget maxTarget value ∧
        Scalar.clamp minTarget maxTarget value ≤ 0.98 ∧
        0.0 < Scalar.clamp minTarget maxTarget value := by
    decide +kernel
  obtain ⟨value, hMem, hTarget⟩ := exists_target_eq capacity
  rw [hTarget]
  exact hBands value hMem

/-- A link that aims at a supported capacity can carry something in any time. -/
theorem Meter.Aims.capacity_mul_seconds_pos {m : Meter Float} (h : m.Aims) {s : Nat} (positive : 0 < s) :
    0.0 < m.reading.capacity * Span.seconds s := by
  obtain ⟨hLeast, _⟩ := (Link.isSupported_iff _).mp h.supported
  have hThousand : Binary64.Spans 10 10 Link.minCapacity :=
    Binary64.spans_of_place (by with_unfolding_all rfl)
  have hCapacity := Binary64.Reaches.of_le hThousand (by decide) hLeast
  exact (hCapacity.mul (.seconds positive) (by decide)).pos

/-- Whatever happened to a measurement, alone or in a link with any queue: it refuses to measure an
interval without length, to take a timer that links do not have, and to aim at a capacity out of range,
and is then as it was. A capacity in range changes itself and its targets only. The capacity is in range
at any time, the target is that of the capacity, and a measurement that is taken divides by positive
numbers only. -/
theorem MeteredQueue.refusals_change_nothing {κ : Type} [PacketQueue κ] {queue : κ}
    {config : LinkConfig Float} {begun : Instant} {n : Meter Float} {k : MeteredQueue κ Float}
    (built : Meter.build config begun = .ok n) (linkBuilt : build queue config begun = .ok k)
    (events : List (MeterEvent Float)) (linkEvents : List (LinkEvent Float)) :
    let m := n.run events
    let l := linkEvents.foldl after k
    (∀ now, now ≤ m.intervalStart → m.measure now = (.error .emptyInterval, m) ∧
      ∀ queueBytes, m.onTimer .loadMeasurement now queueBytes = (.error .emptyInterval, m)) ∧
    (∀ now, now ≤ l.meter.intervalStart → l.measure now = (.error .emptyInterval, l) ∧
      l.onTimer .loadMeasurement now = (.error .emptyInterval, l)) ∧
    (∀ timer now queueBytes, timer ≠ .queueSampling → timer ≠ .loadMeasurement →
      m.onTimer timer now queueBytes = (.error (.unusedByLink timer), m) ∧
      l.onTimer timer now = (.error (.unusedByLink timer), l)) ∧
    (∀ capacity : Float, ¬(1e3 ≤ capacity ∧ capacity ≤ 1e12) →
      m.setCapacity capacity = (.error (.capacityOutOfRange capacity), m) ∧
      l.setCapacity capacity = (.error (.capacityOutOfRange capacity), l)) ∧
    (∀ capacity : Float, 1e3 ≤ capacity ∧ capacity ≤ 1e12 →
      m.setCapacity capacity = (.ok (), m.retargeted capacity) ∧
      l.setCapacity capacity = (.ok (), { l with meter := l.meter.retargeted capacity })) ∧
    ∀ x, x = m ∨ x = l.meter →
      (1e3 ≤ x.reading.capacity ∧ x.reading.capacity ≤ 1e12) ∧
      (x.dynamicTarget = Link.target x.reading.capacity ∧ x.reading.target = x.dynamicTarget) ∧
      (0.80 ≤ x.dynamicTarget ∧ x.dynamicTarget ≤ 0.98) ∧
      ∀ now f, (x.measure now).1 = .ok f →
        0.0 < x.reading.capacity * Span.seconds (x.elapsed now) ∧ 0.0 < x.dynamicTarget := by
  intro m l
  have hAims : ∀ x, x = m ∨ x = l.meter → x.Aims := by
    obtain ⟨capacity, hValid, rfl⟩ := Meter.build_eq_ok_iff.mp built
    obtain ⟨linkCapacity, hLinkValid, rfl⟩ := build_eq_ok_iff.mp linkBuilt
    have hStart := Meter.Aims.start config (LinkConfig.accepted_of_validate hValid).supported begun
    have hLink := Meter.Aims.start config (LinkConfig.accepted_of_validate hLinkValid).supported begun
    rintro x (rfl | rfl)
    · exact hStart.run events
    · obtain ⟨seen, hSeen⟩ : ∃ seen, l.meter = Meter.run _ seen := exists_meter_run _ linkEvents
      rw [hSeen]
      exact hLink.run seen
  refine ⟨fun now early => ⟨?_, fun queueBytes => ?_⟩, fun now early => ⟨?_, ?_⟩,
    fun timer now queueBytes notSampling notMeasurement => ⟨?_, ?_⟩, fun capacity out => ?_,
    fun capacity inRange => ?_, fun x hx => ?_⟩
  · exact Meter.measure_eq_error early
  · exact Meter.onTimer_loadMeasurement_eq_error early queueBytes
  · rw [measure, Meter.measure_eq_error early, withMeter]
  · rw [onTimer, Meter.onTimer_loadMeasurement_eq_error early, withMeter]
  · exact Meter.onTimer_eq_unused notSampling notMeasurement m now queueBytes
  · rw [onTimer, Meter.onTimer_eq_unused notSampling notMeasurement, withMeter]
  · have hOut := fun h => out ((Link.isSupported_iff capacity).mp h)
    rw [setCapacity, Meter.setCapacity_of_not_supported hOut, Meter.setCapacity_of_not_supported hOut,
      withMeter]
    exact ⟨rfl, rfl⟩
  · have hSupported := (Link.isSupported_iff capacity).mpr inRange
    rw [setCapacity, Meter.setCapacity_of_supported hSupported, Meter.setCapacity_of_supported hSupported,
      withMeter]
    exact ⟨rfl, rfl⟩
  · have hx := hAims x hx
    obtain ⟨hLow, hHigh, hPositive⟩ := Link.target_mem_range x.reading.capacity
    rw [← hx.dynamicTarget_eq] at hLow hHigh hPositive
    refine ⟨(Link.isSupported_iff _).mp hx.supported,
      ⟨hx.dynamicTarget_eq, hx.target_eq.trans hx.dynamicTarget_eq.symm⟩, ⟨hLow, hHigh⟩,
      fun now f hMeasured => ⟨?_, hPositive⟩⟩
    exact hx.capacity_mul_seconds_pos (Meter.elapsed_pos_of_measure_eq_ok hMeasured)

/-- A link that was slowed down in its second interval. It refuses to measure at once, to be paced and to
have no capacity at all, and goes on with the target of the lower capacity. -/
theorem MeteredQueue.slowed_link_refuses :
    let config : LinkConfig Float := { LinkConfig.standard with capacity := some 1e7 }
    let m := Meter.start config 1e7 0
    let k : LinkQueue Float := ⟨.empty 1, m⟩
    let events : List (LinkEvent Float) :=
      [.enqueue (.data 1 0 1000 0), .timeout (Span.millis 200), .arrival 40, .capacity 1e6]
    let l := events.foldl after k
    let undefined : Float := 0.0 / 0.0
    Meter.build config 0 = .ok m ∧ build (.empty 1) config 0 = .ok k ∧
      Span.millis 200 ≤ l.meter.intervalStart ∧
      l.measure (Span.millis 200) = (.error .emptyInterval, l) ∧
      l.onTimer .pacing (Span.millis 300) = (.error (.unusedByLink .pacing), l) ∧
      ¬(1e3 ≤ undefined ∧ undefined ≤ 1e12) ∧
      l.setCapacity undefined = (.error (.capacityOutOfRange undefined), l) ∧
      l.meter.dynamicTarget = Link.target 1e6 ∧
      (∃ f, (l.meter.measure (Span.millis 300)).1 = .ok f) ∧
      0.0 < l.meter.reading.capacity * Span.seconds (l.meter.elapsed (Span.millis 300)) := by
  have hValid : { LinkConfig.standard with capacity := some (1e7 : Float) }.validate = .ok 1e7 := rfl
  intro config m k events l undefined
  have hBuilt : Meter.build config 0 = .ok m := Meter.build_eq_ok_iff.mpr ⟨1e7, hValid, rfl⟩
  have hLinkBuilt : build (.empty 1) config 0 = .ok k := build_eq_ok_iff.mpr ⟨1e7, hValid, rfl⟩
  have hEarly : Span.millis 200 ≤ l.meter.intervalStart := by decide +kernel
  have hUndefined : ¬(1e3 ≤ undefined ∧ undefined ≤ 1e12) := by decide +kernel
  have hMeasured : ∃ f, (l.meter.measure (Span.millis 300)).1 = .ok f := by
    refine ⟨FeedbackField.ofCode .low, ?_⟩
    decide +kernel
  obtain ⟨_, hMeasure, hTimer, hRefused, _, hAlways⟩ :=
    refusals_change_nothing hBuilt hLinkBuilt [] events
  obtain ⟨_, ⟨hTarget, _⟩, _, hDivides⟩ := hAlways l.meter (Or.inr rfl)
  obtain ⟨f, hTaken⟩ := hMeasured
  refine ⟨hBuilt, hLinkBuilt, hEarly, (hMeasure _ hEarly).1, (hTimer .pacing _ 0 nofun nofun).2,
    hUndefined, (hRefused _ hUndefined).2, ?_, ⟨f, hTaken⟩, (hDivides _ f hTaken).1⟩
  have hCapacity : l.meter.reading.capacity = 1e6 := by decide +kernel
  rw [hTarget, hCapacity]

end LoadFeedback
