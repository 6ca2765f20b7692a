import LoadFeedback.Proofs.Exact.Monotone

/-! Two links that measure over the same intervals, one of them slower or under more load. In exact
arithmetic, what the first one publishes is at no time milder than what the other one does. -/
namespace LoadFeedback

section

variable {α : Type}

/-- Whether an event leaves the past of a measurement and its capacity as they are. -/
def MeterEvent.carriesOn : MeterEvent α → Bool
  | .capacity _ | .reset _ => false
  | _ => true

/-- The results of a measurement, which stay until the next one. -/
structure Reading.SameResults (r u : Reading α) : Prop where
  steadyQueue_eq : r.steadyQueue = u.steadyQueue
  utilization_eq : r.utilization = u.utilization
  loadFactor_eq : r.loadFactor = u.loadFactor
  feedback_eq : r.feedback = u.feedback

theorem Reading.SameResults.trans {r u v : Reading α} (h : r.SameResults u) (k : u.SameResults v) :
    r.SameResults v :=
  ⟨h.steadyQueue_eq.trans k.steadyQueue_eq, h.utilization_eq.trans k.utilization_eq,
    h.loadFactor_eq.trans k.loadFactor_eq, h.feedback_eq.trans k.feedback_eq⟩

/-- The intervals up to some instant, and what the link knows then. Each interval begins where the one
before it ends, with the results of that one. -/
inductive MeterLog.Continues (first : Reading α) (origin : Instant) :
    List (Measurement α) → Instant → Reading α → Prop where
  | start {r : Reading α} (results : r.SameResults first) : Continues first origin [] origin r
  | measured {past : List (Measurement α)} {x : Measurement α} {r : Reading α}
      (before : Continues first origin past x.start x.before) (results : r.SameResults x.after) :
      Continues first origin (past ++ [x]) x.finish r

theorem MeterLog.Continues.congr {first r u : Reading α} {origin now : Instant}
    {past : List (Measurement α)} (h : Continues first origin past now r) (k : u.SameResults r) :
    Continues first origin past now u := by
  cases h with
  | start results => exact .start (k.trans results)
  | measured before results => exact .measured before (k.trans results)

variable [Scalar α]

/-- Only a reset breaks the chain of the intervals. Counts and capacities leave the results as they are. -/
theorem MeterLog.Continues.after {first : Reading α} {origin : Instant} {g : LoggedMeter α}
    (h : Continues first origin g.log.past g.log.start g.meter.reading) {event : MeterEvent α}
    (noReset : ∀ now, event ≠ .reset now) :
    Continues first origin (g.after event).log.past (g.after event).log.start
      (g.after event).meter.reading := by
  have hStep := g.meter.proceeds_after event
  obtain ⟨_, _, _, hCount⟩ := g.meter.count_eq (g.meter.counted? event)
  unfold LoggedMeter.after MeterLog.after
  generalize g.meter.after event = next at hStep ⊢
  cases hStep with
  | counted goesOn timers =>
      rw [goesOn, hCount]
      exact h.congr ⟨rfl, rfl, rfl, rfl⟩
  | measured ends hElapsed timers =>
      rw [ends, hCount]
      exact .measured h ⟨rfl, rfl, rfl, rfl⟩
  | capacity capacity =>
      refine h.congr ?_
      unfold Meter.setCapacity
      split <;> exact ⟨rfl, rfl, rfl, rfl⟩
  | reset now => exact absurd rfl (noReset now)

/-- An interval of the log is an old one, or it ended with what the link knew just before. -/
theorem LoggedMeter.mem_past_after {g : LoggedMeter α} {event : MeterEvent α} {x : Measurement α}
    (hx : x ∈ (g.after event).log.past) : x ∈ g.log.past ∨ x.before = g.meter.reading := by
  unfold after MeterLog.after at hx
  dsimp only at hx
  split at hx
  · exact Or.inl hx
  · rcases List.mem_append.mp hx with hOld | hNew
    · exact Or.inl hOld
    · rw [List.mem_singleton.mp hNew]
      exact Or.inr rfl
  · cases hx

/-- A measurement that was made by a link of this capacity. -/
structure Measurement.MadeAt (x : Measurement α) (config : LinkConfig α) (capacity : α) : Prop
    extends x.Evaluates config where
  capacity_eq : x.before.capacity = capacity
  target_eq : x.before.target = Link.target capacity

/-- A measurement of a link whose capacity stays the same. -/
structure LoggedMeter.Stays (g : LoggedMeter α) (config : LinkConfig α) (capacity : α)
    (origin : Instant) : Prop where
  records : g.Records config
  continues : MeterLog.Continues (Meter.idle config.encode capacity (Link.target capacity)) origin
    g.log.past g.log.start g.meter.reading
  capacity_eq : g.meter.reading.capacity = capacity
  target_eq : g.meter.reading.target = Link.target capacity
  past : ∀ x ∈ g.log.past, x.before.capacity = capacity ∧ x.before.target = Link.target capacity

theorem LoggedMeter.Stays.madeAt {g : LoggedMeter α} {config : LinkConfig α} {capacity : α}
    {origin : Instant} (h : g.Stays config capacity origin) :
    ∀ x ∈ g.log.past, x.MadeAt config capacity :=
  fun x hx => ⟨h.records.evaluates x hx, (h.past x hx).1, (h.past x hx).2⟩

namespace LoggedMeter.Stays

variable {g : LoggedMeter α} {config : LinkConfig α} {capacity : α} {origin : Instant}

theorem start (config : LinkConfig α) (capacity : α) (now : Instant) :
    (LoggedMeter.start (.start config capacity now)).Stays config capacity now where
  records := records_start config capacity now
  continues := .start ⟨rfl, rfl, rfl, rfl⟩
  capacity_eq := rfl
  target_eq := rfl
  past := List.forall_mem_nil _

theorem after (h : g.Stays config capacity origin) {event : MeterEvent α}
    (carriesOn : event.carriesOn = true) : (g.after event).Stays config capacity origin := by
  have hStep := g.meter.proceeds_after event
  obtain ⟨_, _, _, hCount⟩ := g.meter.count_eq (g.meter.counted? event)
  have hKept : (g.after event).meter.reading.capacity = g.meter.reading.capacity ∧
      (g.after event).meter.reading.target = g.meter.reading.target := by
    unfold LoggedMeter.after
    generalize g.meter.after event = next at hStep ⊢
    cases hStep with
    | counted | measured =>
        rw [hCount]
        exact ⟨rfl, rfl⟩
    | capacity | reset => cases carriesOn
  have hNoReset (now : Instant) : event ≠ .reset now := by
    rintro rfl
    cases carriesOn
  constructor
  case records => exact h.records.after event
  case continues => exact h.continues.after hNoReset
  case capacity_eq => exact hKept.1.trans h.capacity_eq
  case target_eq => exact hKept.2.trans h.target_eq
  case past =>
    intro x hx
    rcases LoggedMeter.mem_past_after hx with hOld | hNew
    · exact h.past x hOld
    · rw [hNew]
      exact ⟨h.capacity_eq, h.target_eq⟩

theorem run (h : g.Stays config capacity origin) {events : List (MeterEvent α)}
    (carriesOn : ∀ event ∈ events, event.carriesOn = true) :
    (g.run events).Stays config capacity origin := by
  induction events generalizing g with
  | nil => exact h
  | cons event rest ih =>
      obtain ⟨hFirst, hRest⟩ := List.forall_mem_cons.mp carriesOn
      exact ih (h.after hFirst) hRest

end LoggedMeter.Stays
end

/-- Two intervals that end at the same instant. The first one has at least the bytes of the other, and
equally many queue samples, none of which is shorter. -/
structure Measurement.Outweighs {α : Type} (x y : Measurement α) : Prop where
  finish_eq : x.finish = y.finish
  sizes_le : (Count.sizes y.counts).sum ≤ (Count.sizes x.counts).sum
  samples_le : List.Forall₂ (· ≤ ·) (Count.samples y.counts) (Count.samples x.counts)

/-- No result of the first link is below that of the other. -/
structure Reading.Exceeds (r u : Reading ℝ) : Prop where
  steadyQueue_le : u.steadyQueue ≤ r.steadyQueue
  utilization_le : u.utilization ≤ r.utilization
  loadFactor_le : u.loadFactor ≤ r.loadFactor
  feedback_le : u.feedback ≤ r.feedback

theorem Reading.Exceeds.congr {r u s t : Reading ℝ} (h : r.Exceeds u) (left : s.SameResults r)
    (right : t.SameResults u) : s.Exceeds t where
  steadyQueue_le := by rw [left.steadyQueue_eq, right.steadyQueue_eq]; exact h.steadyQueue_le
  utilization_le := by rw [left.utilization_eq, right.utilization_eq]; exact h.utilization_le
  loadFactor_le := by rw [left.loadFactor_eq, right.loadFactor_eq]; exact h.loadFactor_le
  feedback_le := by rw [left.feedback_eq, right.feedback_eq]; exact h.feedback_le

theorem Reading.exceeds_idle (encode : Bool) (slow fast : ℝ) :
    (Meter.idle encode slow (Link.target slow)).Exceeds
      (Meter.idle encode fast (Link.target fast)) :=
  ⟨le_refl _, le_refl _, le_refl _, FeedbackField.le_iff.mpr (Nat.le_refl _)⟩

namespace Measurement

variable {x y : Measurement ℝ} {config : LinkConfig ℝ}

theorem Evaluates.steadyQueue_nonneg (h : y.Evaluates config) (before : 0 ≤ y.before.steadyQueue) :
    0 ≤ y.after.steadyQueue := by
  rw [h.steadyQueue_eq]
  exact Meter.blend_nonneg before (Count.meanQueue_nonneg _)

theorem Evaluates.utilization_nonneg (h : y.Evaluates config) (weight : 0 ≤ config.queueWeight)
    (capacity : 0 ≤ y.before.capacity) (before : 0 ≤ y.before.steadyQueue) :
    0 ≤ y.after.utilization := by
  have hLoad : (0 : ℝ) ≤ Scalar.ofNat (Count.load y.counts) := Nat.cast_nonneg _
  have hQueue := h.steadyQueue_nonneg before
  have hSpan := Span.seconds_nonneg (y.finish - y.start)
  rw [h.utilization_eq]
  positivity

/-- Two measurements of the same span by links of one configuration, the first one of a link that is
no faster. -/
structure Comparable (x y : Measurement ℝ) (config : LinkConfig ℝ) (slow fast : ℝ) : Prop where
  outweighs : x.Outweighs y
  start_eq : x.start = y.start
  left : x.MadeAt config slow
  right : y.MadeAt config fast
  weight_nonneg : 0 ≤ config.queueWeight
  capacity_pos : 0 < slow
  capacity_le : slow ≤ fast
  queue_nonneg : 0 ≤ y.before.steadyQueue

namespace Comparable

variable {slow fast : ℝ} (h : x.Comparable y config slow fast)
include h

theorem steadyQueue_le (before : y.before.steadyQueue ≤ x.before.steadyQueue) :
    y.after.steadyQueue ≤ x.after.steadyQueue := by
  rw [h.left.steadyQueue_eq, h.right.steadyQueue_eq]
  exact Meter.blend_mono before (Count.meanQueue_mono h.outweighs.samples_le)

theorem utilization_nonneg : 0 ≤ y.after.utilization := by
  refine h.right.utilization_nonneg h.weight_nonneg ?_ h.queue_nonneg
  rw [h.right.capacity_eq]
  exact (h.capacity_pos.trans_le h.capacity_le).le

/-- The load and the queue are larger, the capacity is smaller, and the span is the same. -/
theorem utilization_le (before : y.before.steadyQueue ≤ x.before.steadyQueue) :
    y.after.utilization ≤ x.after.utilization := by
  have hLoad : (Count.load y.counts : ℝ) ≤ Count.load x.counts :=
    Nat.cast_le.mpr (Count.load_mono h.outweighs.sizes_le)
  have hQueue := h.steadyQueue_le before
  have hNonneg := h.right.steadyQueue_nonneg h.queue_nonneg
  have hWeight := h.weight_nonneg
  have hSpan : 0 < (Span.seconds (x.finish - x.start) : ℝ) :=
    Span.seconds_pos (Nat.sub_pos_of_lt h.left.start_lt)
  have hOffered : 0 ≤ 8.0 * ((Count.load y.counts : ℝ) + config.queueWeight * y.after.steadyQueue) :=
    by positivity
  have hMore : 8.0 * ((Count.load y.counts : ℝ) + config.queueWeight * y.after.steadyQueue) ≤
      8.0 * ((Count.load x.counts : ℝ) + config.queueWeight * x.after.steadyQueue) := by
    gcongr
  have hSlower : slow * Span.seconds (x.finish - x.start) ≤
      fast * Span.seconds (x.finish - x.start) :=
    mul_le_mul_of_nonneg_right h.capacity_le hSpan.le
  rw [h.left.utilization_eq, h.right.utilization_eq, ← h.start_eq, ← h.outweighs.finish_eq,
    h.left.capacity_eq, h.right.capacity_eq]
  exact div_le_div₀ (hOffered.trans hMore) hMore (mul_pos h.capacity_pos hSpan) hSlower

/-- The smaller capacity also has the smaller target. -/
theorem loadFactor_le (before : x.before.Exceeds y.before) :
    y.after.loadFactor ≤ x.after.loadFactor := by
  have hNonneg := h.utilization_nonneg
  have hUtilization := h.utilization_le before.steadyQueue_le
  have hTarget : x.before.target ≤ y.before.target := by
    rw [h.left.target_eq, h.right.target_eq]
    exact Link.target_mono h.capacity_le
  have hPositive : 0 < x.before.target := by
    rw [h.left.target_eq]
    exact Link.target_pos _
  have hLatest : 100.0 * y.after.utilization / y.before.target ≤
      100.0 * x.after.utilization / x.before.target := by
    have hMore : 100.0 * y.after.utilization ≤ 100.0 * x.after.utilization := by gcongr
    have hZero : 0 ≤ 100.0 * y.after.utilization := by positivity
    exact div_le_div₀ (hZero.trans hMore) hMore hPositive hTarget
  rw [h.left.loadFactor_eq, h.right.loadFactor_eq]
  cases config.smoothing with
  | false => exact hLatest
  | true => exact Meter.blend_mono before.loadFactor_le hLatest

theorem exceeds (before : x.before.Exceeds y.before) : x.after.Exceeds y.after where
  steadyQueue_le := h.steadyQueue_le before.steadyQueue_le
  utilization_le := h.utilization_le before.steadyQueue_le
  loadFactor_le := h.loadFactor_le before
  feedback_le := by
    have hLoadFactor := h.loadFactor_le before
    rw [h.left.feedback_eq, h.right.feedback_eq]
    cases config.encode with
    | false => exact FeedbackField.ofLoadFactor_mono hLoadFactor
    | true => exact FeedbackField.ofCode_mono (LoadCode.bits_mono hLoadFactor)

end Comparable
end Measurement

theorem forall₂_concat {β γ : Type} {R : β → γ → Prop} {xs : List β} {ys : List γ} {x : β} {y : γ} :
    List.Forall₂ R (xs ++ [x]) (ys ++ [y]) ↔ List.Forall₂ R xs ys ∧ R x y := by
  rw [← List.forall₂_reverse_iff]
  simp [and_comm, List.forall₂_reverse_iff]

/-- The results of two links over the same intervals. The induction is on the intervals of the first
link, since each result is made of the one before it. -/
theorem MeterLog.Continues.exceeds {config : LinkConfig ℝ} {slow fast : ℝ} {origin s t : Instant}
    {a b : List (Measurement ℝ)} {r u : Reading ℝ} (hWeight : 0 ≤ config.queueWeight)
    (hPositive : 0 < slow) (hCapacity : slow ≤ fast)
    (left : Continues (Meter.idle config.encode slow (Link.target slow)) origin a s r)
    (right : Continues (Meter.idle config.encode fast (Link.target fast)) origin b t u)
    (hLeft : ∀ x ∈ a, x.MadeAt config slow) (hRight : ∀ y ∈ b, y.MadeAt config fast)
    (outweighs : List.Forall₂ Measurement.Outweighs a b) :
    s = t ∧ 0 ≤ u.steadyQueue ∧ r.Exceeds u ∧
      List.Forall₂ (fun x y => x.after.Exceeds y.after) a b := by
  induction left generalizing b t u with
  | start results =>
      cases right with
      | start others =>
          have hIdle := Reading.exceeds_idle config.encode slow fast
          refine ⟨rfl, ?_, hIdle.congr results others, .nil⟩
          rw [others.steadyQueue_eq]
          norm_num [Meter.idle]
      | measured => exact absurd outweighs.length_eq (by simp)
  | @measured past x r before results ih =>
      cases right with
      | start => exact absurd outweighs.length_eq (by simp)
      | @measured others y u earlier published =>
          obtain ⟨hOthers, hPair⟩ := forall₂_concat.mp outweighs
          obtain ⟨hStart, hQueue, hBefore, hAfter⟩ :=
            ih earlier (fun x hx => hLeft x (List.mem_append_left _ hx))
              (fun y hy => hRight y (List.mem_append_left _ hy)) hOthers
          have hx := hLeft x (List.mem_append_right _ (List.mem_singleton_self x))
          have hy := hRight y (List.mem_append_right _ (List.mem_singleton_self y))
          have hExceeds := Measurement.Comparable.exceeds
            ⟨hPair, hStart, hx, hy, hWeight, hPositive, hCapacity, hQueue⟩ hBefore
          refine ⟨hPair.finish_eq, ?_, hExceeds.congr results published,
            forall₂_concat.mpr ⟨hAfter, hExceeds⟩⟩
          rw [published.steadyQueue_eq]
          exact hy.steadyQueue_nonneg hQueue

theorem LinkConfig.Accepted.weight_nonneg {config : LinkConfig ℝ} {capacity : ℝ}
    (h : config.Accepted capacity) : 0 ≤ config.queueWeight := by
  have hWeight : ¬config.queueWeight < 0.0 := h.queueWeight_nonneg
  norm_num at hWeight
  exact hWeight

/-- The capacity can be used, and is the one that was set. -/
theorem LinkConfig.sound_of_validate {config : LinkConfig ℝ} {capacity chosen : ℝ}
    (valid : { config with capacity := some capacity }.validate = .ok chosen) :
    chosen = capacity ∧ 0 < capacity ∧ 0 ≤ config.queueWeight := by
  have hAccepted := accepted_of_validate valid
  obtain rfl : capacity = chosen := Option.some.inj hAccepted.capacity_eq
  exact ⟨rfl, Link.pos_of_isSupported hAccepted.supported, hAccepted.weight_nonneg⟩

/-- Take two links that differ in their capacity only, and let the first one be no faster. If in every
interval at least as many bytes come to it, and its queue is at least as long at every sample, then
none of its results is below that of the other link, and its feedback is at no time milder. -/
theorem Meter.more_load_never_milder {config : LinkConfig ℝ} {slow fast : ℝ} {now : Instant}
    {a b : Meter ℝ} (builtSlow : build { config with capacity := some slow } now = .ok a)
    (builtFast : build { config with capacity := some fast } now = .ok b) (hCapacity : slow ≤ fast)
    {heavy light : List (MeterEvent ℝ)}
    (carriesOn : ∀ event ∈ heavy ++ light, event.carriesOn = true) :
    let g := (LoggedMeter.start a).run heavy
    let h := (LoggedMeter.start b).run light
    List.Forall₂ Measurement.Outweighs g.log.past h.log.past →
      List.Forall₂ (fun x y => x.after.Exceeds y.after) g.log.past h.log.past ∧
      (a.run heavy).reading.Exceeds (b.run light).reading := by
  intro g h outweighs
  obtain ⟨_, hValidSlow, rfl⟩ := build_eq_ok_iff.mp builtSlow
  obtain ⟨_, hValidFast, rfl⟩ := build_eq_ok_iff.mp builtFast
  obtain ⟨rfl, hPositive, hWeight⟩ := LinkConfig.sound_of_validate hValidSlow
  obtain ⟨rfl, _, _⟩ := LinkConfig.sound_of_validate hValidFast
  obtain ⟨hHeavy, hLight⟩ := List.forall_mem_append.mp carriesOn
  have hSlow : g.Stays config _ now := (LoggedMeter.Stays.start config _ now).run hHeavy
  have hFast : h.Stays config _ now := (LoggedMeter.Stays.start config _ now).run hLight
  obtain ⟨_, _, hReading, hPast⟩ := MeterLog.Continues.exceeds hWeight hPositive hCapacity
    hSlow.continues hFast.continues hSlow.madeAt hFast.madeAt outweighs
  refine ⟨hPast, ?_⟩
  rwa [LoggedMeter.meter_run, LoggedMeter.meter_run] at hReading

/-- Three intervals of two links with raw feedback, where the smoothed load and the steady queue carry
over from one to the next. The slower link has more bytes, or in the last interval as many, and a longer
queue. -/
theorem Meter.slower_link_never_milder :
    let config : LinkConfig ℝ := { LinkConfig.standard with encode := false, smoothing := true }
    let a := start config 1e6 0
    let b := start config 1e7 0
    let heavy : List (MeterEvent ℝ) :=
      [.arrival 2000, .sample 500, .measure (Span.millis 200),
        .arrival 1500, .sample 800, .arrival 1500, .sample 400, .measure (Span.millis 400),
        .arrival 1000, .sample 300, .measure (Span.millis 600)]
    let light : List (MeterEvent ℝ) :=
      [.sample 100, .arrival 1000, .measure (Span.millis 200),
        .sample 700, .sample 0, .arrival 2500, .measure (Span.millis 400),
        .arrival 1000, .sample 300, .measure (Span.millis 600)]
    build { config with capacity := some 1e6 } 0 = .ok a ∧
    build { config with capacity := some 1e7 } 0 = .ok b ∧ (1e6 : ℝ) ≤ 1e7 ∧
    (∀ event ∈ heavy ++ light, event.carriesOn = true) ∧
    List.Forall₂ Measurement.Outweighs ((LoggedMeter.start a).run heavy).log.past
      ((LoggedMeter.start b).run light).log.past ∧
    List.Forall₂ (fun x y => x.after.Exceeds y.after) ((LoggedMeter.start a).run heavy).log.past
      ((LoggedMeter.start b).run light).log.past ∧
    (a.run heavy).reading.Exceeds (b.run light).reading := by
  intro config a b heavy light
  have hValid (capacity : ℝ) (hSupported : Link.isSupported capacity = true) :
      build { config with capacity := some capacity } 0 = .ok (start config capacity 0) := by
    refine build_eq_ok_iff.mpr ⟨capacity, ?_, rfl⟩
    norm_num [config, LinkConfig.validate, LinkConfig.standard, Scalar.isFinite, hSupported,
      defaultMeasurementInterval, Span.millis]
  have hSlow := hValid 1e6 (by norm_num [Link.isSupported, Link.minCapacity, Link.maxCapacity])
  have hFast := hValid 1e7 (by norm_num [Link.isSupported, Link.minCapacity, Link.maxCapacity])
  have hCapacity : (1e6 : ℝ) ≤ 1e7 := by norm_num
  have hCarriesOn : ∀ event ∈ heavy ++ light, event.carriesOn = true := by
    simp [heavy, light, MeterEvent.carriesOn]
  have hOutweighs : List.Forall₂ Measurement.Outweighs ((LoggedMeter.start a).run heavy).log.past
      ((LoggedMeter.start b).run light).log.past :=
    .cons ⟨rfl, by decide, .cons (by decide) .nil⟩
      (.cons ⟨rfl, by decide, .cons (by decide) (.cons (by decide) .nil)⟩
        (.cons ⟨rfl, by decide, .cons (by decide) .nil⟩ .nil))
  exact ⟨hSlow, hFast, hCapacity, hCarriesOn, hOutweighs,
    more_load_never_milder hSlow hFast hCapacity hCarriesOn hOutweighs⟩

end LoadFeedback
