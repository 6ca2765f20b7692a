import Mathlib.Data.List.Forall2
import Mathlib.Order.Bounds.Basic
import LoadFeedback.Proofs.Sender.Reset

/-! What the samples say about an estimate of the round trip. It stays among the samples, although every
average is cut to whole nanoseconds, and longer samples never lead to a shorter estimate. -/
namespace LoadFeedback.RoundTrip

variable {r t : RoundTrip} {samples : List Span}

/-- New, or reset after whatever came before. -/
def IsNew (r : RoundTrip) : Prop :=
  (∃ initial, r = start initial) ∨ ∃ before : RoundTrip, r = before.reset

theorem IsNew.average_eq_none (h : r.IsNew) : r.average = none := by
  rcases h with ⟨_, rfl⟩ | ⟨_, rfl⟩ <;> rfl

theorem IsNew.samples_eq_zero (h : r.IsNew) : r.samples = 0 := by
  rcases h with ⟨_, rfl⟩ | ⟨_, rfl⟩ <;> rfl

theorem update_of_average_eq_none (h : r.average = none) (sample : Span) :
    r.update sample = { r with
      latest := sample, average := some sample, variation := sample / 2
      least := sample, greatest := sample, samples := r.samples + 1 } := by
  rw [update, h]

theorem update_of_average_eq_some {average : Span} (h : r.average = some average) (sample : Span) :
    r.update sample = { r with
      latest := sample, average := some ((7 * average + sample) / 8)
      variation := (3 * r.variation + deviation average sample) / 4
      least := min r.least sample, greatest := max r.greatest sample
      samples := r.samples + 1 } := by
  rw [update, h]

/-- A weighted average that is cut to a whole number is not below both of its parts. -/
theorem le_average {weight low a b : Nat} (ha : low ≤ a) (hb : low ≤ b) :
    low ≤ (weight * a + b) / (weight + 1) := by
  rw [Nat.le_div_iff_mul_le (Nat.succ_pos weight), Nat.mul_succ, Nat.mul_comm low]
  exact Nat.add_le_add (Nat.mul_le_mul_left weight ha) hb

theorem average_le {weight high a b : Nat} (ha : a ≤ high) (hb : b ≤ high) :
    (weight * a + b) / (weight + 1) ≤ high := by
  refine Nat.div_le_of_le_mul ?_
  rw [Nat.succ_mul]
  exact Nat.add_le_add (Nat.mul_le_mul_left weight ha) hb

theorem deviation_le {a b bound : Span} (ha : a ≤ bound) (hb : b ≤ bound) : deviation a b ≤ bound := by
  unfold deviation
  split
  · exact Nat.le_trans (Nat.sub_le a b) ha
  · exact Nat.le_trans (Nat.sub_le b a) hb

/-- The estimate is one of the given samples, and of nothing before them. -/
structure Summarizes (r : RoundTrip) (samples : List Span) : Prop where
  least : IsLeast {s | s ∈ samples} r.least
  greatest : IsGreatest {s | s ∈ samples} r.greatest
  average : ∃ average, r.average = some average ∧ r.least ≤ average ∧ average ≤ r.greatest
  variation_le : r.variation ≤ r.greatest
  samples_eq : r.samples = samples.length

namespace Summarizes

theorem first (h : r.IsNew) (sample : Span) : (r.update sample).Summarizes [sample] := by
  have hOnly : {s | s ∈ [sample]} = {sample} := by
    ext
    simp
  rw [update_of_average_eq_none h.average_eq_none]
  constructor
  case least => exact hOnly ▸ isLeast_singleton
  case greatest => exact hOnly ▸ isGreatest_singleton
  case average => exact ⟨sample, rfl, le_refl sample, le_refl sample⟩
  case variation_le => exact Nat.div_le_self sample 2
  case samples_eq => exact congrArg (· + 1) h.samples_eq_zero

/-- The average moves between the old extremes and the sample, which are within the new extremes. -/
theorem update (h : r.Summarizes samples) (sample : Span) :
    (r.update sample).Summarizes (samples ++ [sample]) := by
  obtain ⟨average, hAverage, hLow, hHigh⟩ := h.average
  have hMembers : {s | s ∈ samples ++ [sample]} = {s | s ∈ samples} ∪ {sample} := by
    ext
    simp [or_comm]
  have hLeast : min r.least sample ≤ average := Nat.le_trans (Nat.min_le_left _ _) hLow
  have hGreatest : average ≤ max r.greatest sample := Nat.le_trans hHigh (Nat.le_max_left _ _)
  rw [update_of_average_eq_some hAverage]
  constructor
  case least => exact hMembers ▸ h.least.union isLeast_singleton
  case greatest => exact hMembers ▸ h.greatest.union isGreatest_singleton
  case average =>
    exact ⟨_, rfl, le_average hLeast (Nat.min_le_right _ _), average_le hGreatest (Nat.le_max_right _ _)⟩
  case variation_le =>
    exact average_le (Nat.le_trans h.variation_le (Nat.le_max_left _ _))
      (deviation_le hGreatest (Nat.le_max_right _ _))
  case samples_eq =>
    rw [List.length_append]
    exact congrArg (· + 1) h.samples_eq

theorem run (h : r.Summarizes samples) (more : List Span) :
    (r.run (more.map .sample)).Summarizes (samples ++ more) := by
  induction more generalizing r samples with
  | nil => rwa [List.append_nil]
  | cons sample rest ih =>
      have hRest := ih (h.update sample)
      rwa [List.append_assoc, List.singleton_append] at hRest

end Summarizes

/-- The samples that a new estimate has taken are all that it depends on. -/
theorem IsNew.summarizes_run (h : r.IsNew) (nonempty : samples ≠ []) :
    (r.run (samples.map .sample)).Summarizes samples := by
  cases samples with
  | nil => exact absurd rfl nonempty
  | cons first rest => exact (Summarizes.first h first).run rest

/-- Two estimates that both have a sample, the first one not above the other. -/
def Below (r t : RoundTrip) : Prop :=
  ∃ a b, r.average = some a ∧ t.average = some b ∧ a ≤ b

namespace Below

theorem first (hr : r.IsNew) (ht : t.IsNew) {a b : Span} (h : a ≤ b) :
    (r.update a).Below (t.update b) := by
  rw [update_of_average_eq_none hr.average_eq_none, update_of_average_eq_none ht.average_eq_none]
  exact ⟨a, b, rfl, rfl, h⟩

theorem update (h : r.Below t) {a b : Span} (hSamples : a ≤ b) : (r.update a).Below (t.update b) := by
  obtain ⟨x, y, hx, hy, hAverages⟩ := h
  rw [update_of_average_eq_some hx, update_of_average_eq_some hy]
  refine ⟨_, _, rfl, rfl, Nat.div_le_div_right ?_⟩
  exact Nat.add_le_add (Nat.mul_le_mul_left 7 hAverages) hSamples

theorem run (h : r.Below t) {more larger : List Span} (pairs : List.Forall₂ (· ≤ ·) more larger) :
    (r.run (more.map .sample)).Below (t.run (larger.map .sample)) := by
  induction pairs generalizing r t with
  | nil => exact h
  | cons hPair _ ih => exact ih (h.update hPair)

theorem smoothed_le (h : r.Below t) : r.smoothed ≤ t.smoothed := by
  obtain ⟨x, y, hx, hy, hAverages⟩ := h
  rwa [smoothed, smoothed, hx, hy, Option.getD_some, Option.getD_some]

theorem control_le (h : r.Below t) : r.control ≤ t.control :=
  Nat.max_le.mpr ⟨Nat.le_trans h.smoothed_le (Nat.le_max_left _ _), Nat.le_max_right _ _⟩

end Below

theorem IsNew.below_run (hr : r.IsNew) (ht : t.IsNew) {larger : List Span} (nonempty : samples ≠ [])
    (pairs : List.Forall₂ (· ≤ ·) samples larger) :
    (r.run (samples.map .sample)).Below (t.run (larger.map .sample)) := by
  cases pairs with
  | nil => exact absurd rfl nonempty
  | cons hFirst hRest => exact (Below.first hr ht hFirst).run hRest

/-- After any samples since the start or the last reset, the extremes are those of the samples, whatever
was assumed before; the estimate is between them, its variation is not above the greatest one, and control
laws see it as a granule at least. If each sample is replaced by one that is not shorter, the estimate is
after none of them shorter than it was. -/
theorem estimate_follows_samples (new : r.IsNew) (nonempty : samples ≠ []) :
    let last := r.run (samples.map .sample)
    IsLeast {s | s ∈ samples} last.least ∧ IsGreatest {s | s ∈ samples} last.greatest ∧
      (last.least ≤ last.smoothed ∧ last.smoothed ≤ last.greatest) ∧
      last.variation ≤ last.greatest ∧ last.samples = samples.length ∧
      last.control = max last.smoothed (Span.millis 10) ∧
      ∀ t : RoundTrip, t.IsNew → ∀ larger, List.Forall₂ (· ≤ ·) samples larger → ∀ n, 0 < n →
        let before := r.run ((samples.take n).map .sample)
        let after := t.run ((larger.take n).map .sample)
        before.smoothed ≤ after.smoothed ∧ before.control ≤ after.control := by
  intro last
  have hLast : last.Summarizes samples := new.summarizes_run nonempty
  obtain ⟨average, hAverage, hLow, hHigh⟩ := hLast.average
  have hSmoothed : last.smoothed = average := by rw [smoothed, hAverage, Option.getD_some]
  refine ⟨hLast.least, hLast.greatest, ?_, hLast.variation_le, hLast.samples_eq, rfl, ?_⟩
  · rw [hSmoothed]
    exact ⟨hLow, hHigh⟩
  · intro t other larger pairs n positive before after
    have hSome : samples.take n ≠ [] := by
      simp [List.take_eq_nil_iff, nonempty, Nat.ne_of_gt positive]
    have hBelow : before.Below after := new.below_run other hSome (List.forall₂_take n pairs)
    exact ⟨hBelow.smoothed_le, hBelow.control_le⟩

/-- Three samples after a reset. The assumed hundred milliseconds, which are between them, leave no trace,
and the last sample takes the average back to the first one. -/
theorem estimate_of_three_samples :
    let r := ((start (Span.millis 100)).update (Span.millis 7)).reset
    let samples := [Span.millis 400, Span.millis 800, Span.millis 50]
    let larger := [Span.millis 400, Span.millis 900, Span.millis 51]
    let last := r.run (samples.map .sample)
    r.IsNew ∧ samples ≠ [] ∧ List.Forall₂ (· ≤ ·) samples larger ∧
      last.least = Span.millis 50 ∧ last.smoothed = Span.millis 400 ∧
      (last.least ≤ last.smoothed ∧ last.smoothed ≤ last.greatest) ∧ last.samples = 3 ∧
      last.control ≤ (r.run (larger.map .sample)).control := by
  intro r samples larger last
  have hNew : r.IsNew := Or.inr ⟨_, rfl⟩
  have hSome : samples ≠ [] := List.cons_ne_nil _ _
  have hPairs : List.Forall₂ (· ≤ ·) samples larger := by simp [samples, larger, Span.millis]
  obtain ⟨_, _, hBetween, _, hCount, _, hLater⟩ := estimate_follows_samples hNew hSome
  exact ⟨hNew, hSome, hPairs, by decide, by decide, hBetween, hCount,
    (hLater r hNew larger hPairs 3 (by decide)).2⟩

end LoadFeedback.RoundTrip
