import LoadFeedback.Proofs.Exact.Growth

/-! The terms of a round trip over the real numbers. They say nothing of the round trips before it. A longer
round trip has the larger factor, also across the two ratios at which the rule for the factor changes, and no
smaller exponent. -/
namespace LoadFeedback

/-- What can happen to the terms of a window. -/
inductive ScalingEvent where
  /-- The round trip was estimated anew. -/
  | measured (estimate : RoundTrip)
  | reset

namespace Scaling

section

variable {α : Type} [Scalar α] {s : Scaling α} {linkInterval : Span}

def after (s : Scaling α) : ScalingEvent → Scaling α
  | .measured estimate => s.update estimate
  | .reset => s.reset

/-- The terms after some events, the first one first. -/
def run (s : Scaling α) (events : List ScalingEvent) : Scaling α := events.foldl after s

theorem Derived.after (h : s.Derived linkInterval) (event : ScalingEvent) :
    (s.after event).Derived linkInterval := by
  cases event with
  | measured estimate => exact h.update estimate
  | reset => exact h.reset

theorem Derived.run (h : s.Derived linkInterval) (events : List ScalingEvent) :
    (s.run events).Derived linkInterval := by
  induction events generalizing s with
  | nil => exact h
  | cons event rest ih => exact ih (h.after event)

theorem derived_run (linkInterval : Span) (events : List ScalingEvent) :
    ((start linkInterval : Scaling α).run events).Derived linkInterval :=
  Derived.run (Or.inl rfl) events

end

/-- The three pieces of the rule are given with both their ends, since they agree where they meet. -/
theorem factorOf_of_le_fifth {ratio : ℝ} (h : ratio ≤ 1 / 5) : factorOf ratio = ratio / 5 := by
  rw [factorOf, if_pos (by norm_num at h ⊢; exact h)]
  norm_num
  ring

theorem factorOf_of_between {ratio : ℝ} (low : 1 / 5 ≤ ratio) (high : ratio ≤ 5) :
    factorOf ratio = ratio ^ 2 := by
  rcases low.eq_or_lt with rfl | hAbove
  · rw [factorOf_of_le_fifth (le_refl _)]
    norm_num
  · rw [factorOf, if_neg (by norm_num at hAbove ⊢; exact hAbove), if_pos (by norm_num; exact high), sq]

theorem factorOf_of_five_le {ratio : ℝ} (h : 5 ≤ ratio) : factorOf ratio = ratio + 20 := by
  rcases h.eq_or_lt with rfl | hAbove
  · rw [factorOf_of_between (by norm_num) (le_refl _)]
    norm_num
  · rw [factorOf, if_neg (by norm_num; linarith), if_neg (by norm_num; exact hAbove)]
    norm_num
    ring

theorem factorOf_strictMono : StrictMono (factorOf : ℝ → ℝ) := by
  have hFirst : StrictMonoOn (factorOf : ℝ → ℝ) (Set.Iic (1 / 5)) := by
    intro x hx y hy hLess
    rw [factorOf_of_le_fifth hx, factorOf_of_le_fifth hy]
    linarith
  have hSecond : StrictMonoOn (factorOf : ℝ → ℝ) (Set.Icc (1 / 5) 5) := by
    intro x hx y hy hLess
    have hPos : 0 ≤ x := le_trans (by norm_num) hx.1
    rw [factorOf_of_between hx.1 hx.2, factorOf_of_between hy.1 hy.2]
    gcongr
  have hThird : StrictMonoOn (factorOf : ℝ → ℝ) (Set.Ici 5) := by
    intro x hx y hy hLess
    rw [factorOf_of_five_le hx, factorOf_of_five_le hy]
    linarith
  have hKnee : (1 / 5 : ℝ) ≤ 5 := by norm_num
  refine StrictMonoOn.Iic_union_Ici hFirst ?_
  rw [← Set.Icc_union_Ici_eq_Ici hKnee]
  exact hSecond.union hThird (isGreatest_Icc hKnee) isLeast_Ici

theorem factorOf_continuous : Continuous (factorOf : ℝ → ℝ) := by
  unfold factorOf
  refine .if_le (by fun_prop) (.if_le (by fun_prop) (by fun_prop) continuous_id continuous_const ?_)
    continuous_id continuous_const ?_
  · rintro ratio rfl
    norm_num
  · rintro ratio rfl
    norm_num

/-- Milliseconds in hundredths of the typical round trip. -/
theorem millis_div (n : Nat) : (Span.millis n : ℝ) / (Span.millis 100 : ℕ) = n / 100 := by
  simp only [Span.millis, Nat.cast_mul]
  norm_num
  ring

theorem le_ratio {roundTrip : Span} {n : Nat} (h : Span.millis n ≤ roundTrip) :
    (n : ℝ) / 100 ≤ (roundTrip : ℝ) / (Span.millis 100 : ℕ) := by
  have hCast : (Span.millis n : ℝ) ≤ roundTrip := by exact_mod_cast h
  rw [← millis_div]
  exact div_le_div_of_nonneg_right hCast (Nat.cast_nonneg _)

theorem ratio_le {roundTrip : Span} {n : Nat} (h : roundTrip ≤ Span.millis n) :
    (roundTrip : ℝ) / (Span.millis 100 : ℕ) ≤ n / 100 := by
  have hCast : (roundTrip : ℝ) ≤ Span.millis n := by exact_mod_cast h
  rw [← millis_div]
  exact div_le_div_of_nonneg_right hCast (Nat.cast_nonneg _)

variable (terms : Scaling ℝ) (estimate : RoundTrip)

theorem factor_update : (terms.update estimate).factor =
    factorOf ((estimate.control : ℝ) / (Span.millis 100 : ℕ)) := by
  change factorOf (Span.seconds estimate.control / Span.seconds (Span.millis 100) : ℝ) = _
  rw [Span.seconds_exact, Span.seconds_exact, div_div_div_cancel_right₀ (by norm_num)]

theorem exponent_update : (terms.update estimate).exponent =
    min ((estimate.control : ℝ) / (terms.linkInterval : ℕ)) 2.5 := by
  change Scalar.min (Span.seconds estimate.control / Span.seconds terms.linkInterval : ℝ) 2.5 = _
  rw [Scalar.min_eq_min, Span.seconds_exact, Span.seconds_exact,
    div_div_div_cancel_right₀ (by norm_num)]

/-- A round trip is counted as ten milliseconds at least, a tenth of the typical one. -/
theorem fiftieth_le_factor_update : 0.02 ≤ (terms.update estimate).factor := by
  have hControl : Span.millis 10 ≤ estimate.control := Nat.le_max_right _ _
  have hTenth := factorOf_strictMono.monotone (le_ratio hControl)
  rw [← factor_update terms, factorOf_of_le_fifth (by norm_num)] at hTenth
  norm_num at hTenth ⊢
  exact hTenth

/-- Whatever came before, the terms after an update follow from the round trip of the estimate alone, and a
longer one has a larger factor and no smaller exponent. The pieces of the factor meet at twenty and at five
hundred milliseconds. In no state are the terms those of a round trip of less than ten milliseconds. -/
theorem terms_rise_with_roundTrip {linkInterval : Span} (pos : 0 < linkInterval) :
    let reached (past : List ScalingEvent) : Scaling ℝ := (start linkInterval).run past
    (∀ (past other : List ScalingEvent) (estimate longer : RoundTrip),
      let s := (reached past).update estimate
      let t := (reached other).update longer
      (estimate.control = longer.control → s = t) ∧
      (estimate.control < longer.control → s.factor < t.factor) ∧
      (estimate.control ≤ longer.control → s.exponent ≤ t.exponent)) ∧
    (∀ (past : List ScalingEvent) (estimate : RoundTrip),
      let s := (reached past).update estimate
      let ratio : ℝ := (estimate.control : ℝ) / (Span.millis 100 : ℕ)
      s.factor = factorOf ratio ∧
      (estimate.control ≤ Span.millis 20 → s.factor = ratio / 5) ∧
      (Span.millis 20 ≤ estimate.control → estimate.control ≤ Span.millis 500 →
        s.factor = ratio ^ 2) ∧
      (Span.millis 500 ≤ estimate.control → s.factor = ratio + 20) ∧
      0.02 ≤ s.factor ∧ 0 < s.exponent ∧ s.exponent ≤ 2.5) ∧
    Continuous (factorOf : ℝ → ℝ) ∧
    ∀ past : List ScalingEvent, 0.02 ≤ (reached past).factor ∧ 0 < (reached past).exponent ∧
      Span.millis 10 ≤ (reached past).roundTrip := by
  intro reached
  have hReached (past : List ScalingEvent) : (reached past).Derived linkInterval :=
    derived_run linkInterval past
  have hTypical : (0 : ℝ) < (Span.millis 100 : ℕ) := by norm_num [Span.millis]
  refine ⟨fun past other estimate longer => ?_, fun past estimate => ?_, factorOf_continuous,
    fun past => ?_⟩
  · rw [(hReached past).update_eq, (hReached other).update_eq]
    refine ⟨fun hSame => ?_, fun hLonger => ?_, fun hLonger => ?_⟩
    · simp only [update, hSame]
    · rw [factor_update, factor_update]
      refine factorOf_strictMono (div_lt_div_of_pos_right ?_ hTypical)
      exact_mod_cast hLonger
    · rw [exponent_update, exponent_update]
      have hCast : (estimate.control : ℝ) ≤ longer.control := by exact_mod_cast hLonger
      exact min_le_min_right _ (div_le_div_of_nonneg_right hCast (Nat.cast_nonneg _))
  · have hLink : 0 < (reached past).linkInterval := (hReached past).linkInterval_eq ▸ pos
    intro s ratio
    have hFactor : s.factor = factorOf ratio := factor_update _ _
    refine ⟨hFactor, fun hShort => ?_, fun hLow hHigh => ?_, fun hLong => ?_,
      fiftieth_le_factor_update _ _, exponent_update_pos hLink estimate, ?_⟩
    · exact hFactor.trans (factorOf_of_le_fifth ((ratio_le hShort).trans (by norm_num)))
    · have hFifth : 1 / 5 ≤ ratio := (le_ratio hLow).trans' (by norm_num)
      exact hFactor.trans (factorOf_of_between hFifth ((ratio_le hHigh).trans (by norm_num)))
    · exact hFactor.trans (factorOf_of_five_le ((le_ratio hLong).trans' (by norm_num)))
    · exact (exponent_update _ _).trans_le (min_le_right _ _)
  · rcases hReached past with hStart | ⟨estimate, hUpdate⟩
    · rw [hStart]
      exact ⟨by norm_num [start], exponent_start_pos pos, (by decide : Span.millis 10 ≤ typicalRoundTrip)⟩
    · rw [hUpdate]
      exact ⟨fiftieth_le_factor_update _ _, exponent_update_pos pos estimate, Nat.le_max_right _ _⟩

/-- Links that measure over twenty milliseconds. The exponent of the typical round trip is above the bound
of those that are estimated, and after a second estimate nothing is left of the first one. -/
theorem terms_around_knees :
    let estimate (ms : Nat) := (RoundTrip.start typicalRoundTrip).update (Span.millis ms)
    let reached (past : List ScalingEvent) : Scaling ℝ := (start (Span.millis 20)).run past
    let longest := reached [.measured (estimate 800), .reset]
    0 < Span.millis 20 ∧ longest.exponent = 5 ∧
      ((estimate 20).control ≤ Span.millis 20 ∧ Span.millis 20 ≤ (estimate 20).control ∧
        (longest.update (estimate 20)).factor = 1 / 25) ∧
      ((estimate 499).control < (estimate 501).control ∧
        (longest.update (estimate 499)).factor < ((reached []).update (estimate 501)).factor) ∧
      (longest.update (estimate 1)).exponent ≤ (longest.update (estimate 800)).exponent ∧
      (longest.update (estimate 800)).exponent ≤ 2.5 := by
  intro estimate reached longest
  have hPos : 0 < Span.millis 20 := by decide
  obtain ⟨hUpdates, hPieces, _, _⟩ := terms_rise_with_roundTrip hPos
  have hFirstKnee : (estimate 20).control = Span.millis 20 := by decide
  have hSecondKnee : (estimate 499).control < (estimate 501).control := by decide
  have hCapped : (estimate 1).control ≤ (estimate 800).control := by decide
  have hFactor := (hPieces [.measured (estimate 800), .reset] (estimate 20)).2.1 hFirstKnee.le
  refine ⟨hPos, ?_, ⟨hFirstKnee.le, hFirstKnee.ge, ?_⟩, ⟨hSecondKnee, ?_⟩, ?_, ?_⟩
  · change (intervals typicalRoundTrip (Span.millis 20) : ℝ) = 5
    norm_num [intervals, Span.seconds_exact, typicalRoundTrip, Span.millis]
  · rw [hFirstKnee] at hFactor
    refine hFactor.trans ?_
    norm_num [Span.millis]
  · exact (hUpdates _ _ _ _).2.1 hSecondKnee
  · exact (hUpdates _ _ _ _).2.2 hCapped
  · exact (hPieces _ _).2.2.2.2.2.2

end Scaling
end LoadFeedback
