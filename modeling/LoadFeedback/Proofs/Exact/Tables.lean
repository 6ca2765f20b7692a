import LoadFeedback.Proofs.Exact.Arithmetic

/-! The built-in tables over the real numbers. An entry of the table for multiplicative increases lies
between the anchors of its decade, and one of the table for additive increases is a power times an
anchor; so both tables are positive. -/
namespace LoadFeedback.Window

theorem tenfold_eq (x : ℝ) (n : Nat) : tenfold x n = x * 10 ^ n := by
  induction n with
  | zero => simp [tenfold]
  | succ n ih =>
      rw [tenfold, ih, pow_succ]
      norm_num
      ring

/-- The window at a place of the grid, as a multiple of the first one of its decade. -/
theorem gridWindow_eq (i : Nat) : (gridWindow i : ℝ) =
    10 ^ (i / decadeSize) * (1 + (i % decadeSize : ℕ) / 10) := by
  change decadeStart (i / decadeSize) + decadeStep (i / decadeSize) * ((i % decadeSize : ℕ) : ℝ) = _
  rw [decadeStart, decadeStep, tenfold_eq, tenfold_eq]
  norm_num
  ring

theorem gridWindow_pos (i : Nat) : 0 < (gridWindow i : ℝ) := by
  rw [gridWindow_eq]
  positivity

/-- A window of the grid is below the next decade. -/
theorem log_gridWindow_le (i : Nat) : Real.logb 10 (gridWindow i) - (i / decadeSize : ℕ) ≤ 1 := by
  have hRest : ((i % decadeSize : ℕ) : ℝ) ≤ 90 := by
    have hMod : i % decadeSize < 90 := Nat.mod_lt i (by decide)
    exact_mod_cast hMod.le
  have hBelow : (gridWindow i : ℝ) ≤ 10 ^ (i / decadeSize + 1) := by
    rw [gridWindow_eq, pow_succ]
    gcongr
    linarith
  have hLog : Real.logb 10 (gridWindow i) ≤ Real.logb 10 (10 ^ (i / decadeSize + 1)) :=
    Real.logb_le_logb_of_le (by norm_num) (gridWindow_pos i) hBelow
  rw [← Real.rpow_natCast, Real.logb_rpow (by norm_num) (by norm_num)] at hLog
  push_cast at hLog
  linarith

/-- Anchors that fall from decade to decade and stay positive. -/
def Falling (anchors : Vector ℝ 8) : Prop :=
  ∀ d : Fin 7, 0 < anchors[d.val + 1] ∧ anchors[d.val + 1] ≤ anchors[d.val]

theorem falling_increaseAnchors : Falling increaseAnchors := by
  rintro ⟨d, hDecade⟩
  simp only [increaseAnchors, Vector.getElem_mk, List.getElem_toArray]
  interval_cases d
  all_goals
    simp only [List.getElem_cons_zero, List.getElem_cons_succ]
    norm_num

theorem falling_limiterAnchors : Falling limiterAnchors := by
  rintro ⟨d, hDecade⟩
  simp only [limiterAnchors, Vector.getElem_mk, List.getElem_toArray]
  interval_cases d
  all_goals
    simp only [List.getElem_cons_zero, List.getElem_cons_succ]
    norm_num

/-- The table for multiplicative increases does not fall below the anchor of the next decade. -/
theorem logEntry_pos {anchors : Vector ℝ 8} (falling : Falling anchors) (i : Fin gridSize) :
    0 < logEntry anchors i := by
  obtain ⟨hHigh, hLow⟩ := falling (decadeOf i)
  have hLog := log_gridWindow_le i.val
  have hPart : (anchors[(decadeOf i).val] - anchors[(decadeOf i).val + 1]) *
      (Real.logb 10 (gridWindow i.val) - ((decadeOf i).val : ℕ)) ≤
      anchors[(decadeOf i).val] - anchors[(decadeOf i).val + 1] :=
    mul_le_of_le_one_right (sub_nonneg.mpr hLow) hLog
  change 0 < anchors[(decadeOf i).val] - (anchors[(decadeOf i).val] - anchors[(decadeOf i).val + 1]) *
    (Real.logb 10 (gridWindow i.val) - ((decadeOf i).val : ℕ))
  linarith

theorem powerEntry_pos {anchors : Vector ℝ 8} (falling : Falling anchors) (i : Fin gridSize) :
    0 < powerEntry anchors i := by
  obtain ⟨hHigh, hLow⟩ := falling (decadeOf i)
  have hStart : 0 < (decadeStart (decadeOf i).val : ℝ) := by
    rw [decadeStart, tenfold_eq]
    positivity
  exact mul_pos (hHigh.trans_le hLow)
    (Real.rpow_pos_of_pos (div_pos (gridWindow_pos i.val) hStart) _)

end LoadFeedback.Window

namespace LoadFeedback

/-- Gains that let every window grow. -/
structure WindowTables.Positive (tables : WindowTables ℝ) : Prop where
  increase : ∀ i : Fin Window.gridSize, 0 < tables.increase.get i
  limiter : ∀ i : Fin Window.gridSize, 0 < tables.limiter.get i

theorem WindowTables.Positive.nonneg {tables : WindowTables ℝ} (h : tables.Positive) :
    tables.Nonneg := by
  have hZero : (0.0 : ℝ) = 0 := by norm_num
  exact ⟨fun i => hZero.trans_le (h.increase i).le, fun i => hZero.trans_le (h.limiter i).le⟩

theorem WindowTables.positive_standard : (standard : WindowTables ℝ).Positive where
  increase i := by simpa [standard] using Window.logEntry_pos Window.falling_increaseAnchors i
  limiter i := by simpa [standard] using Window.powerEntry_pos Window.falling_limiterAnchors i

end LoadFeedback
