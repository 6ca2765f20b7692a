import LoadFeedback.Sender.Pacer
import LoadFeedback.Proofs.Rounding

/-! When a window is paced, and how far apart its packets are then. The interval is that of the window's
bucket, moved to a multiple of the granule that the timers resolve. -/
namespace LoadFeedback

theorem Span.granuleMillis_timerGranule : millis (granuleMillis timerGranule) = timerGranule := by
  decide

namespace Pacer

variable {α : Type} [Scalar α] {p : Pacer} {window : α} {roundTrip interval bucket : Span}

theorem interval?_eq_some :
    p.interval? window roundTrip = some interval ↔
      p.enabled = true ∧ ∃ bucket, bucketInterval? window roundTrip = some bucket ∧
        p.shortest < bucket ∧
        interval = max (Span.roundTo α timerGranule .down bucket) timerGranule := by
  unfold interval?
  cases p.enabled with
  | false => simp only [Bool.false_eq_true, ↓reduceIte, reduceCtorEq, false_and]
  | true =>
      cases bucketInterval? window roundTrip with
      | none => simp only [↓reduceIte, reduceCtorEq, false_and, exists_false, and_false]
      | some bucket => grind

theorem interval?_eq_none :
    p.interval? window roundTrip = none ↔
      p.enabled = false ∨ ∀ bucket, bucketInterval? window roundTrip = some bucket →
        bucket ≤ p.shortest := by
  unfold interval?
  cases p.enabled with
  | false => simp only [Bool.false_eq_true, ↓reduceIte, true_or]
  | true =>
      cases bucketInterval? window roundTrip with
      | none => simp only [↓reduceIte, reduceCtorEq, false_implies, implies_true, or_true]
      | some bucket => grind

theorem granule_le_interval (h : p.interval? window roundTrip = some interval) :
    timerGranule ≤ interval := by
  obtain ⟨_, bucket, _, _, rfl⟩ := interval?_eq_some.mp h
  exact Nat.le_max_right _ _

theorem interval?_pos (h : p.interval? window roundTrip = some interval) : 0 < interval :=
  Nat.lt_of_lt_of_le (by decide) (granule_le_interval h)

end Pacer
end LoadFeedback
