import Mathlib
import LoadFeedback.Proofs.Sender.Bounds

/-! The library over the real numbers, where nothing is rounded and powers are powers. -/
namespace LoadFeedback

noncomputable instance : Scalar ℝ where
  decidableLT := inferInstance
  decidableLE := inferInstance
  ofNat n := n
  isFinite _ := true
  floor x := ⌊x⌋₊
  nearest x := ⌊x + 1 / 2⌋₊
  billionths x :=
    let whole := ⌊x * 1000000000⌋₊
    let rest := x * 1000000000 - whole
    if 1 / 2 < rest ∨ rest = 1 / 2 ∧ whole % 2 = 1 then whole + 1 else whole

noncomputable instance : PowerScalar ℝ where
  pow x y := x ^ y
  log10 := Real.logb 10

theorem keepsUnit_real : KeepsUnit ℝ where
  one_le_one := le_refl _
  one_le_floor x h := by
    rw [show (1.0 : ℝ) = 1 by norm_num] at h
    exact (Nat.one_le_floor_iff x).mpr h
  one_le_add x y h k := by
    norm_num at h k ⊢
    linarith
  sub_one_nonneg x h := by
    norm_num at h ⊢
    linarith
  one_le_pow x e h k := by
    norm_num at h k ⊢
    exact Real.one_le_rpow h k

theorem Scalar.max_eq_max (x y : ℝ) : Scalar.max x y = max x y := by
  unfold Scalar.max
  split_ifs with hLe
  · exact (max_eq_left hLe).symm
  · exact (max_eq_right (le_of_not_ge hLe)).symm
  · exact absurd (le_refl y) ‹_›

theorem Scalar.min_eq_min (x y : ℝ) : Scalar.min x y = min x y := by
  unfold Scalar.min
  split_ifs with hLe
  · exact (min_eq_left hLe).symm
  · exact (min_eq_right (le_of_not_ge hLe)).symm
  · exact absurd (le_refl y) ‹_›

theorem WindowState.minWindow_eq_one : (WindowState.minWindow : ℝ) = 1 := by
  norm_num [WindowState.minWindow]

/-- The whole seconds and the rest of a span add up to it. -/
theorem Span.seconds_exact (s : Nat) : (Span.seconds s : ℝ) = s / 10 ^ 9 := by
  change ((s / 1000000000 : ℕ) : ℝ) + ((s % 1000000000 : ℕ) : ℝ) / 1e9 = _
  have hDivMod : (s : ℝ) = (1000000000 * (s / 1000000000) + s % 1000000000 : ℕ) := by
    rw [Nat.div_add_mod]
  rw [hDivMod]
  push_cast
  ring

theorem Span.seconds_nonneg (s : Span) : 0 ≤ (Span.seconds s : ℝ) := by
  rw [seconds_exact]
  positivity

theorem Span.seconds_pos {s : Span} (h : 0 < s) : 0 < (Span.seconds s : ℝ) := by
  have hCount : (0 : ℝ) < (s : ℕ) := Nat.cast_pos.mpr h
  rw [seconds_exact]
  positivity

namespace Scaling

theorem factorOf_nonneg {ratio : ℝ} (h : 0 ≤ ratio) : 0 ≤ factorOf ratio := by
  unfold factorOf
  split
  · norm_num
    exact h
  · split
    · exact mul_nonneg h h
    · next hAbove =>
        norm_num at hAbove ⊢
        linarith

theorem intervals_nonneg (roundTrip linkInterval : Span) : 0 ≤ (intervals roundTrip linkInterval : ℝ) :=
  div_nonneg roundTrip.seconds_nonneg linkInterval.seconds_nonneg

/-- Terms that are not negative do not shrink a window, whatever the gains of the settings are. -/
theorem lifts_of_nonneg {terms : Scaling ℝ} {config : SenderConfig ℝ} (hFactor : 0 ≤ terms.factor)
    (hExponent : 0 ≤ terms.exponent) (hAlpha : 0 < config.alpha) (hWeight : 0 < config.weight) :
    terms.Lifts config where
  addition window hWindow := by
    norm_num at hWindow ⊢
    positivity
  exponent := by
    norm_num
    exact hExponent

end Scaling

end LoadFeedback
