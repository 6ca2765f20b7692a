import LoadFeedback.Proofs.Exact.Arithmetic
import LoadFeedback.Proofs.Link.Accounts

/-! Over the real numbers, every step from counts to feedback keeps the order: more bytes, longer
queues and less capacity never lead to a milder feedback. -/
namespace LoadFeedback

namespace Scalar

theorem clamp_mono {low high x y : ℝ} (hRange : low ≤ high) (h : x ≤ y) :
    clamp low high x ≤ clamp low high y := by
  unfold clamp
  split_ifs <;> linarith

theorem le_clamp {low high : ℝ} (hRange : low ≤ high) (x : ℝ) : low ≤ clamp low high x := by
  unfold clamp
  split_ifs <;> linarith

end Scalar

namespace Link

/-- The value of the last band that a capacity reaches, or the given one if it reaches none. -/
noncomputable def reached (default : ℝ) (bands : List (ℝ × ℝ)) (capacity : ℝ) : ℝ :=
  ((bands.takeWhile fun band => band.1 ≤ capacity).getLast?.map (·.2)).getD default

theorem reached_cons (default : ℝ) (band : ℝ × ℝ) (rest : List (ℝ × ℝ)) (capacity : ℝ) :
    reached default (band :: rest) capacity =
      if band.1 ≤ capacity then reached band.2 rest capacity else default := by
  unfold reached
  by_cases h : band.1 ≤ capacity
  · rw [List.takeWhile_cons_of_pos (by simpa using h), if_pos h, List.getLast?_cons]
    cases (rest.takeWhile fun band => band.1 ≤ capacity).getLast? <;> rfl
  · rw [List.takeWhile_cons_of_neg (by simpa using h), if_neg h]
    rfl

theorem le_reached {default : ℝ} {bands : List (ℝ × ℝ)}
    (hRises : (default :: bands.map (·.2)).IsChain (· ≤ ·)) (capacity : ℝ) :
    default ≤ reached default bands capacity := by
  induction bands generalizing default with
  | nil => exact le_refl _
  | cons band rest ih =>
      obtain ⟨hFirst, hRest⟩ := List.isChain_cons_cons.mp hRises
      rw [reached_cons]
      split
      · exact hFirst.trans (ih hRest)
      · exact le_refl _

/-- A larger capacity reaches at least the same bands, and their values rise. -/
theorem reached_mono {default : ℝ} {bands : List (ℝ × ℝ)}
    (hRises : (default :: bands.map (·.2)).IsChain (· ≤ ·)) {c d : ℝ} (h : c ≤ d) :
    reached default bands c ≤ reached default bands d := by
  induction bands generalizing default with
  | nil => exact le_refl _
  | cons band rest ih =>
      obtain ⟨hFirst, hRest⟩ := List.isChain_cons_cons.mp hRises
      rw [reached_cons, reached_cons]
      by_cases hLow : band.1 ≤ c
      · rw [if_pos hLow, if_pos (hLow.trans h)]
        exact ih hRest
      · rw [if_neg hLow]
        split
        · exact hFirst.trans (le_reached hRest d)
        · exact le_refl _

theorem target_mono {c d : ℝ} (h : c ≤ d) : target c ≤ target d := by
  have hRises : ((0.80 : ℝ) :: targetBands.map (·.2)).IsChain (· ≤ ·) := by
    norm_num [targetBands]
  have hRange : (minTarget : ℝ) ≤ maxTarget := by norm_num [minTarget, maxTarget]
  exact Scalar.clamp_mono hRange (reached_mono hRises h)

theorem pos_of_isSupported {capacity : ℝ} (h : isSupported capacity = true) : 0 < capacity := by
  have hLeast : minCapacity ≤ capacity ∧ capacity ≤ maxCapacity := by
    simpa [isSupported] using h
  have hMin : (0 : ℝ) < minCapacity := by norm_num [minCapacity]
  exact hMin.trans_le hLeast.1

theorem target_pos (capacity : ℝ) : 0 < target capacity := by
  have hRange : (minTarget : ℝ) ≤ maxTarget := by norm_num [minTarget, maxTarget]
  have hMin : (0 : ℝ) < minTarget := by norm_num [minTarget]
  exact hMin.trans_le (Scalar.le_clamp hRange _)

end Link

theorem LoadCode.bits_mono {x y : ℝ} (h : x ≤ y) :
    (LoadCode.ofLoadFactor x).bits ≤ (LoadCode.ofLoadFactor y).bits := by
  unfold ofLoadFactor
  -- Where the codes are in the wrong order, so are the thresholds.
  split_ifs <;> first | decide | linarith

namespace FeedbackField

theorem ofCode_mono {a b : LoadCode} (h : a.bits ≤ b.bits) : ofCode a ≤ ofCode b := by
  rw [le_iff]
  cases a <;> cases b <;> revert h <;> decide

theorem ofLoadFactor_mono {x y : ℝ} (h : x ≤ y) :
    (ofLoadFactor x : FeedbackField) ≤ ofLoadFactor y := by
  have hNearest : Scalar.nearest (x * 100.0) ≤ Scalar.nearest (y * 100.0) := by
    refine Nat.floor_mono ?_
    gcongr
  have hField (n : Nat) : (UInt16.ofNat (min 65535 n)).toNat = min 65535 n :=
    UInt16.toNat_ofNat_of_lt' (Nat.lt_succ_of_le (Nat.min_le_left 65535 n))
  rw [le_iff, ofLoadFactor, ofLoadFactor, hField, hField]
  exact min_le_min_left _ hNearest

end FeedbackField

namespace Meter

theorem blend_mono {a b x y : ℝ} (hAverage : a ≤ b) (hValue : x ≤ y) : blend a x ≤ blend b y := by
  have hGain : (gain : ℝ) = 1 / 4 := by norm_num [gain]
  change a + gain * (x - a) ≤ b + gain * (y - b)
  rw [hGain]
  linarith

theorem blend_self (average : ℝ) : blend average average = average := by
  norm_num [blend]

theorem blend_le {average value bound : ℝ} (hAverage : average ≤ bound) (hValue : value ≤ bound) :
    blend average value ≤ bound :=
  (blend_mono hAverage hValue).trans_eq (blend_self bound)

theorem blend_nonneg {average value : ℝ} (hAverage : 0 ≤ average) (hValue : 0 ≤ value) :
    0 ≤ blend average value :=
  (blend_self 0).ge.trans (blend_mono hAverage hValue)

end Meter

namespace Count

variable {counts more : List Count}

theorem load_mono (h : (sizes counts).sum ≤ (sizes more).sum) : load counts ≤ load more :=
  min_le_min_left _ h

theorem meanQueue_nonneg (counts : List Count) : (0 : ℝ) ≤ meanQueue counts := by
  unfold meanQueue
  split
  · norm_num
  · exact div_nonneg (Nat.cast_nonneg _) (Nat.cast_nonneg _)

/-- The mean of the samples is within every bound of them, also where their sum is held. -/
theorem meanQueue_le {bound : Nat} (h : ∀ q ∈ samples counts, q ≤ bound) :
    (meanQueue counts : ℝ) ≤ bound := by
  unfold meanQueue
  split
  · norm_num
  · next hSome =>
      have hSum : queueSum counts ≤ (samples counts).length * bound :=
        (Nat.min_le_right _ _).trans (List.sum_le_card_nsmul _ _ h)
      have hLength : (0 : ℝ) < (samples counts).length :=
        Nat.cast_pos.mpr (List.length_pos_iff.mpr hSome)
      change (queueSum counts : ℝ) / ((samples counts).length : ℕ) ≤ bound
      rw [div_le_iff₀ hLength, mul_comm]
      exact_mod_cast hSum

/-- Of equally many samples, longer queues have the larger mean. -/
theorem meanQueue_mono (h : List.Forall₂ (· ≤ ·) (samples counts) (samples more)) :
    (meanQueue counts : ℝ) ≤ meanQueue more := by
  have hSum : queueSum counts ≤ queueSum more := min_le_min_left _ h.sum_le_sum
  unfold meanQueue
  by_cases hNone : samples counts = []
  · have hNone' : samples more = [] := by
      rw [hNone] at h
      exact List.forall₂_nil_left_iff.mp h
    rw [if_pos hNone, if_pos hNone']
  · have hSome : samples more ≠ [] := fun hEmpty => hNone (by
      rw [hEmpty] at h
      exact List.forall₂_nil_right_iff.mp h)
    rw [if_neg hNone, if_neg hSome, h.length_eq]
    change (queueSum counts : ℝ) / (samples more).length ≤
      (queueSum more : ℝ) / (samples more).length
    gcongr

end Count
end LoadFeedback
