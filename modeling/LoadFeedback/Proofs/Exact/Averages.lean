import LoadFeedback.Proofs.Exact.Load
import LoadFeedback.Proofs.Link.Refusal

/-! What a link publishes stays within what it observed since it was last reset. Each running average moves
from one interval to the next towards what that interval came to, so it exceeds none of the bounds that all
intervals keep. Changes of the capacity in between do not matter: every interval is measured against the
capacity that it ended with. -/
namespace LoadFeedback

section

variable {α : Type} [Scalar α]

/-- A measurement whose results follow from the intervals of its log, each of which had a capacity that is
supported. -/
structure LoggedMeter.Chained (g : LoggedMeter α) (config : LinkConfig α) : Prop where
  records : g.Records config
  aims : g.meter.Aims
  continues : ∃ capacity target origin, MeterLog.Continues (Meter.idle config.encode capacity target)
    origin g.log.past g.log.start g.meter.reading
  past : ∀ x ∈ g.log.past, Link.isSupported x.before.capacity = true ∧
    x.before.target = Link.target x.before.capacity

namespace LoggedMeter.Chained

variable {g : LoggedMeter α} {config : LinkConfig α}

theorem start (config : LinkConfig α) {capacity : α} (supported : Link.isSupported capacity = true)
    (now : Instant) : (LoggedMeter.start (.start config capacity now)).Chained config where
  records := records_start config capacity now
  aims := .start config supported now
  continues := ⟨capacity, Link.target capacity, now, .start ⟨rfl, rfl, rfl, rfl⟩⟩
  past := List.forall_mem_nil _

theorem after (h : g.Chained config) (event : MeterEvent α) : (g.after event).Chained config where
  records := h.records.after event
  aims := h.aims.after event
  continues := by
    obtain ⟨capacity, target, origin, hContinues⟩ := h.continues
    cases event with
    | reset now =>
        have hFeedback := congrArg Meter.idleFeedback h.records.settings.encode_eq
        exact ⟨capacity, target, now, .start ⟨rfl, rfl, rfl, hFeedback⟩⟩
    | arrival | sample | measure | capacity | timer | timeout | close =>
        exact ⟨capacity, target, origin, hContinues.after nofun⟩
  past := by
    intro x hx
    rcases LoggedMeter.mem_past_after hx with hOld | hNew
    · exact h.past x hOld
    · rw [hNew]
      exact ⟨h.aims.supported, h.aims.target_eq⟩

theorem run (h : g.Chained config) (events : List (MeterEvent α)) :
    (g.run events).Chained config := by
  induction events generalizing g with
  | nil => exact h
  | cons event rest ih => exact ih (h.after event)

end LoggedMeter.Chained
end

namespace LoadCode

variable {loadFactor : ℝ}

theorem ofLoadFactor_of_lt (h : loadFactor < 80) : ofLoadFactor loadFactor = .low :=
  if_pos (by exact_mod_cast h)

theorem ofLoadFactor_of_between (low : 80 ≤ loadFactor) (high : loadFactor < 100) :
    ofLoadFactor loadFactor = .high := by
  rw [ofLoadFactor, if_neg (by exact_mod_cast low.not_gt), if_pos (by exact_mod_cast high)]

theorem ofLoadFactor_of_le (h : 100 ≤ loadFactor) : ofLoadFactor loadFactor = .over := by
  have hLow : ¬loadFactor < 80 := by linarith
  rw [ofLoadFactor, if_neg (by exact_mod_cast hLow), if_neg (by exact_mod_cast h.not_gt)]

end LoadCode

/-- The load factor of an interval, before it is averaged. -/
noncomputable def Measurement.unsmoothed (x : Measurement ℝ) : ℝ :=
  100 * x.after.utilization / x.before.target

/-- What the intervals so far say about the results of a link. -/
structure Reading.Reflects (r : Reading ℝ) (past : List (Measurement ℝ)) (config : LinkConfig ℝ) :
    Prop where
  steadyQueue_nonneg : 0 ≤ r.steadyQueue
  steadyQueue_le : ∀ bound : Nat, (∀ x ∈ past, ∀ q ∈ Count.samples x.counts, q ≤ bound) →
    r.steadyQueue ≤ bound
  utilization_nonneg : 0 ≤ r.utilization
  loadFactor_nonneg : 0 ≤ r.loadFactor
  loadFactor_le : config.smoothing = true → past ≠ [] → ∃ x ∈ past, r.loadFactor ≤ x.unsmoothed
  loadFactor_eq : config.smoothing = false → ∀ x, past.getLast? = some x →
    r.loadFactor = x.unsmoothed
  idle : past = [] → r.loadFactor = 0 ∧ r.feedback = Meter.idleFeedback config.encode
  feedback_eq : past ≠ [] → config.encode = true → r.feedback = .ofCode (.ofLoadFactor r.loadFactor)

namespace Reading.Reflects

variable {r u : Reading ℝ} {past : List (Measurement ℝ)} {config : LinkConfig ℝ}

theorem start (encode : Bool) (capacity target : ℝ) (h : config.encode = encode) :
    (Meter.idle encode capacity target).Reflects [] config where
  steadyQueue_nonneg := by norm_num [Meter.idle]
  steadyQueue_le bound _ := by norm_num [Meter.idle]
  utilization_nonneg := by norm_num [Meter.idle]
  loadFactor_nonneg := by norm_num [Meter.idle]
  loadFactor_le _ hSome := absurd rfl hSome
  loadFactor_eq _ _ hLast := by cases hLast
  idle _ := ⟨by norm_num [Meter.idle], congrArg Meter.idleFeedback h.symm⟩
  feedback_eq hSome := absurd rfl hSome

theorem congr (h : u.Reflects past config) (same : r.SameResults u) : r.Reflects past config := by
  obtain ⟨hQueue, hUtilization, hLoadFactor, hFeedback⟩ := same
  constructor
  case steadyQueue_nonneg => exact hQueue ▸ h.steadyQueue_nonneg
  case steadyQueue_le => exact hQueue ▸ h.steadyQueue_le
  case utilization_nonneg => exact hUtilization ▸ h.utilization_nonneg
  case loadFactor_nonneg => exact hLoadFactor ▸ h.loadFactor_nonneg
  case loadFactor_le => exact hLoadFactor ▸ h.loadFactor_le
  case loadFactor_eq => exact hLoadFactor ▸ h.loadFactor_eq
  case idle => exact hLoadFactor ▸ hFeedback ▸ h.idle
  case feedback_eq => exact hLoadFactor ▸ hFeedback ▸ h.feedback_eq

/-- An interval more. The old average and the new value are within every bound of all intervals, and so is
the new average. -/
theorem measured {x : Measurement ℝ} (h : x.before.Reflects past config) (made : x.Evaluates config)
    (weight : 0 ≤ config.queueWeight) (capacity : 0 < x.before.capacity) (target : 0 < x.before.target) :
    x.after.Reflects (past ++ [x]) config := by
  have hUtilization := made.utilization_nonneg weight capacity.le h.steadyQueue_nonneg
  have hUnsmoothed : 0 ≤ x.unsmoothed := div_nonneg (by positivity) target.le
  have hLast : x ∈ past ++ [x] := List.mem_append_right _ (List.mem_singleton_self x)
  have hLoadFactor : x.after.loadFactor =
      if config.smoothing then Meter.blend x.before.loadFactor x.unsmoothed else x.unsmoothed := by
    rw [made.loadFactor_eq, Measurement.unsmoothed]
    norm_num
  constructor
  case steadyQueue_nonneg => exact made.steadyQueue_nonneg h.steadyQueue_nonneg
  case steadyQueue_le =>
    intro bound hBound
    rw [made.steadyQueue_eq]
    exact Meter.blend_le (h.steadyQueue_le bound fun y hy => hBound y (List.mem_append_left _ hy))
      (Count.meanQueue_le (hBound x hLast))
  case utilization_nonneg => exact hUtilization
  case loadFactor_nonneg =>
    rw [hLoadFactor]
    split
    · exact Meter.blend_nonneg h.loadFactor_nonneg hUnsmoothed
    · exact hUnsmoothed
  case loadFactor_le =>
    intro hSmoothing _
    rw [hLoadFactor, if_pos hSmoothing]
    rcases eq_or_ne past [] with hFirst | hSome
    · exact ⟨x, hLast, Meter.blend_le ((h.idle hFirst).1.trans_le hUnsmoothed) (le_refl _)⟩
    · obtain ⟨y, hy, hBefore⟩ := h.loadFactor_le hSmoothing hSome
      rcases le_total y.unsmoothed x.unsmoothed with hMore | hLess
      · exact ⟨x, hLast, Meter.blend_le (hBefore.trans hMore) (le_refl _)⟩
      · exact ⟨y, List.mem_append_left _ hy, Meter.blend_le hBefore hLess⟩
  case loadFactor_eq =>
    intro hSmoothing y hy
    rw [List.getLast?_concat, Option.some.injEq] at hy
    rw [hLoadFactor, if_neg (by simp [hSmoothing]), hy]
  case idle => exact fun hNone => absurd hNone (by simp)
  case feedback_eq =>
    intro _ hEncode
    rw [made.feedback_eq, if_pos hEncode]

end Reading.Reflects

/-- The induction is on the intervals, since each one begins with the results of the one before it. -/
theorem MeterLog.Continues.reflects {config : LinkConfig ℝ} {capacity target : ℝ}
    {origin now : Instant} {past : List (Measurement ℝ)} {r : Reading ℝ}
    (h : Continues (Meter.idle config.encode capacity target) origin past now r)
    (weight : 0 ≤ config.queueWeight)
    (made : ∀ x ∈ past, x.Evaluates config ∧ 0 < x.before.capacity ∧ 0 < x.before.target) :
    r.Reflects past config := by
  induction h with
  | start results => exact (Reading.Reflects.start config.encode capacity target rfl).congr results
  | @measured past x r before results ih =>
      obtain ⟨hEarlier, hNow⟩ := List.forall_mem_append.mp made
      obtain ⟨hMade, hCapacity, hTarget⟩ := hNow x (List.mem_singleton_self x)
      exact ((ih hEarlier).measured hMade weight hCapacity hTarget).congr results

theorem LoggedMeter.Chained.reflects {g : LoggedMeter ℝ} {config : LinkConfig ℝ}
    (h : g.Chained config) (weight : 0 ≤ config.queueWeight) :
    g.meter.reading.Reflects g.log.past config := by
  obtain ⟨_, _, _, hContinues⟩ := h.continues
  refine hContinues.reflects weight fun x hx => ?_
  obtain ⟨hSupported, hTarget⟩ := h.past x hx
  exact ⟨h.records.evaluates x hx, Link.pos_of_isSupported hSupported, hTarget ▸ Link.target_pos _⟩

/-- Whatever happened to a link since it was built or last reset: the steady queue is at most the longest
sample, the load factor is at most the largest of the intervals where it is averaged and else the last
one, and a link that encodes publishes the code of its load factor, or before its first measurement the
one for a low load. -/
theorem Meter.averages_within_observed {config : LinkConfig ℝ} {now : Instant} {m : Meter ℝ}
    (built : build config now = .ok m) (events : List (MeterEvent ℝ)) :
    let log := ((LoggedMeter.start m).run events).log
    let r := (m.run events).reading
    (0 ≤ r.steadyQueue ∧ r.steadyQueue ≤ ((Count.samples log.allCounts).max?.getD 0 : ℕ)) ∧
    (0 ≤ r.utilization ∧ 0 ≤ r.loadFactor) ∧
    r.intervals = log.past.length ∧
    (log.past = [] → r.loadFactor = 0) ∧
    (config.smoothing = true → log.past ≠ [] → ∃ x ∈ log.past, r.loadFactor ≤ x.unsmoothed) ∧
    (config.smoothing = false → ∀ x, log.past.getLast? = some x → r.loadFactor = x.unsmoothed) ∧
    (config.encode = true → (∃ code, r.feedback = .ofCode code) ∧
      (r.intervals = 0 → r.feedback = .ofCode .low) ∧
      (0 < r.intervals → (r.loadFactor < 80 → r.feedback = .ofCode .low) ∧
        (80 ≤ r.loadFactor → r.loadFactor < 100 → r.feedback = .ofCode .high) ∧
        (100 ≤ r.loadFactor → r.feedback = .ofCode .over))) := by
  intro log r
  obtain ⟨capacity, hValid, rfl⟩ := build_eq_ok_iff.mp built
  have hAccepted := LinkConfig.accepted_of_validate hValid
  have hChained := (LoggedMeter.Chained.start config hAccepted.supported now).run events
  have hReading : ((LoggedMeter.start (start config capacity now)).run events).meter.reading = r :=
    congrArg Meter.reading (LoggedMeter.meter_run _ events)
  have hReflects : r.Reflects log.past config := hReading ▸ hChained.reflects hAccepted.weight_nonneg
  have hIntervals : r.intervals = log.past.length := hReading ▸ hChained.records.intervals_eq
  have hFirst (hEncode : config.encode = true) (hNone : log.past = []) : r.feedback = .ofCode .low := by
    rw [(hReflects.idle hNone).2, hEncode]
    rfl
  refine ⟨⟨hReflects.steadyQueue_nonneg, hReflects.steadyQueue_le _ fun x hx q hq => ?_⟩,
    ⟨hReflects.utilization_nonneg, hReflects.loadFactor_nonneg⟩, hIntervals,
    fun hNone => (hReflects.idle hNone).1, hReflects.loadFactor_le, hReflects.loadFactor_eq,
    fun hEncode => ⟨?_, fun hNone => ?_, fun hSome => ?_⟩⟩
  · have hCounts : x.counts ⊆ log.allCounts := fun c hc =>
      List.mem_append_left _ (List.mem_flatMap.mpr ⟨x, hx, hc⟩)
    exact List.le_max?_getD_of_mem (List.filterMap_subset _ hCounts hq)
  · rcases eq_or_ne log.past [] with hNone | hSome
    · exact ⟨.low, hFirst hEncode hNone⟩
    · exact ⟨_, hReflects.feedback_eq hSome hEncode⟩
  · exact hFirst hEncode (List.length_eq_zero_iff.mp (hIntervals ▸ hNone))
  · have hPast : log.past ≠ [] := List.length_pos_iff.mp (hIntervals ▸ hSome)
    rw [hReflects.feedback_eq hPast hEncode]
    exact ⟨fun hLow => congrArg _ (LoadCode.ofLoadFactor_of_lt hLow),
      fun hLow hHigh => congrArg _ (LoadCode.ofLoadFactor_of_between hLow hHigh),
      fun hHigh => congrArg _ (LoadCode.ofLoadFactor_of_le hHigh)⟩

/-- A long queue before a reset and an overload after it. Once the load factor is averaged it is a quarter
of that of the only interval, and the link publishes a high load and not an overload. -/
theorem Meter.averages_after_reset :
    let config (smoothing : Bool) : LinkConfig ℝ :=
      { LinkConfig.standard with smoothing := smoothing, capacity := some 1e7 }
    let m (smoothing : Bool) := start (config smoothing) 1e7 0
    let events : List (MeterEvent ℝ) := [.sample 90000, .measure (Span.millis 200),
      .reset (Span.millis 300), .arrival 828000, .measure (Span.millis 500), .sample 700]
    let log (smoothing : Bool) := ((LoggedMeter.start (m smoothing)).run events).log
    let r (smoothing : Bool) := ((m smoothing).run events).reading
    (∀ smoothing, build (config smoothing) 0 = .ok (m smoothing)) ∧
      (r true).steadyQueue ≤ 700 ∧
      (log true).past ≠ [] ∧ (∃ x ∈ (log true).past, (r true).loadFactor ≤ x.unsmoothed) ∧
      (∀ x, (log false).past.getLast? = some x → (r false).loadFactor = x.unsmoothed) ∧
      0 < (r true).intervals ∧ 80 ≤ (r true).loadFactor ∧ (r true).loadFactor < 100 ∧
      (r true).feedback = .ofCode .high := by
  intro config m events log r
  have hBuilt (smoothing : Bool) : build (config smoothing) 0 = .ok (m smoothing) := by
    refine build_eq_ok_iff.mpr ⟨1e7, ?_, rfl⟩
    norm_num [config, LinkConfig.validate, LinkConfig.standard, Scalar.isFinite,
      defaultMeasurementInterval, Span.millis, Link.isSupported, Link.minCapacity, Link.maxCapacity]
  have hTarget : Link.target (1e7 : ℝ) = 0.92 := by
    norm_num [Link.target, Link.targetBands, List.takeWhile, Scalar.clamp, Link.minTarget, Link.maxTarget]
  have hPast (smoothing : Bool) : (log smoothing).past ≠ [] := List.cons_ne_nil _ _
  have hLoadFactor : (r true).loadFactor = 90 := by
    let counted := (start (config true) 1e7 (Span.millis 300)).onArrival 828000
    have hRun : (m true).run events = (counted.measured (Span.millis 500)).sampleQueue 700 := rfl
    have hLast : ((counted.measured (Span.millis 500)).sampleQueue 700).reading.loadFactor =
        blend 0.0 (100.0 * (8.0 * (Scalar.ofNat (min maxCount (0 + 828000)) + 0.5 * blend 0.0 0.0)
          / (1e7 * Span.seconds (Span.millis 500 - Span.millis 300))) / Link.target 1e7) := rfl
    have hLoad : min maxCount (0 + 828000) = 828000 := by decide
    have hElapsed : Span.millis 500 - Span.millis 300 = 200000000 := by decide
    simp only [r, hRun]
    rw [hLast, hLoad, hElapsed, hTarget, Span.seconds_exact]
    norm_num [blend, gain, Scalar.ofNat]
  obtain ⟨⟨_, hQueue⟩, _, hIntervals, _, hAveraged, _, hPublished⟩ :=
    averages_within_observed (hBuilt true) events
  obtain ⟨_, _, _, _, _, hLatest, _⟩ := averages_within_observed (hBuilt false) events
  have hLongest : (Count.samples (log true).allCounts).max?.getD 0 = 700 := rfl
  have hSteady : (r true).steadyQueue ≤ 700 := by
    refine hQueue.trans_eq ?_
    rw [hLongest]
    norm_num
  have hSome : 0 < (r true).intervals := hIntervals ▸ List.length_pos_iff.mpr (hPast true)
  have hHigh : 80 ≤ (r true).loadFactor ∧ (r true).loadFactor < 100 := by
    rw [hLoadFactor]
    norm_num
  exact ⟨hBuilt, hSteady, hPast true, hAveraged rfl (hPast true), hLatest rfl, hSome, hHigh.1, hHigh.2,
    ((hPublished rfl).2.2 hSome).2.1 hHigh.1 hHigh.2⟩

end LoadFeedback
