import LoadFeedback.Proofs.Exact.Arithmetic
import LoadFeedback.Fairness

/-! The fairness of shares over the real numbers. What is missing to an even share is the sum of the
squared distances to the mean rate, so the index is one exactly where all of these are zero. -/
namespace LoadFeedback

theorem Scalar.sum_eq_sum (xs : List ℝ) : Scalar.sum xs = xs.sum := by
  rw [Scalar.sum, List.sum_eq_foldl, show (0.0 : ℝ) = 0 by norm_num]

/-- The sum of the squares of some rates. -/
noncomputable def sumSquares (rates : List ℝ) : ℝ :=
  (rates.map fun r => r * r).sum

namespace sumSquares

variable {rates : List ℝ}

@[simp] theorem nil : sumSquares [] = 0 := rfl

@[simp] theorem cons (rate : ℝ) (rest : List ℝ) :
    sumSquares (rate :: rest) = rate * rate + sumSquares rest :=
  List.sum_cons

theorem nonneg (rates : List ℝ) : 0 ≤ sumSquares rates :=
  List.sum_nonneg (List.forall_mem_map.mpr fun r _ => mul_self_nonneg r)

theorem eq_zero_iff : sumSquares rates = 0 ↔ ∀ r ∈ rates, r = 0 := by
  induction rates with
  | nil => simp
  | cons rate rest ih =>
      rw [cons, add_eq_zero_iff_of_nonneg (mul_self_nonneg rate) (nonneg rest), mul_self_eq_zero, ih,
        List.forall_mem_cons]

theorem perm {other : List ℝ} (h : other.Perm rates) : sumSquares other = sumSquares rates :=
  (h.map _).sum_eq

theorem scale (c : ℝ) (rates : List ℝ) :
    sumSquares (rates.map (c * ·)) = c ^ 2 * sumSquares rates := by
  induction rates with
  | nil => simp
  | cons rate rest ih =>
      rw [List.map_cons, cons, cons, ih]
      ring

/-- The squared distances to some rate, from the sum of the rates and that of their squares. -/
theorem sub (c : ℝ) (rates : List ℝ) :
    sumSquares (rates.map (· - c)) = sumSquares rates - 2 * c * rates.sum + rates.length * c ^ 2 := by
  induction rates with
  | nil => simp
  | cons rate rest ih =>
      rw [List.map_cons, cons, cons, ih, List.sum_cons, List.length_cons, Nat.cast_succ]
      ring

/-- The distances to the mean are what the squared sum lacks. -/
theorem sub_mean (rates : List ℝ) :
    rates.length * sumSquares (rates.map (· - rates.sum / rates.length)) =
      rates.length * sumSquares rates - rates.sum ^ 2 := by
  rcases eq_or_ne rates [] with rfl | hSome
  · simp
  · have hLength : (rates.length : ℝ) ≠ 0 := Nat.cast_ne_zero.mpr (List.length_pos_iff.mpr hSome).ne'
    rw [sub]
    field_simp
    ring

theorem sq_sum_le (rates : List ℝ) : rates.sum ^ 2 ≤ rates.length * sumSquares rates := by
  have hDistances := sub_mean rates
  have hNonneg := mul_nonneg (Nat.cast_nonneg (α := ℝ) rates.length)
    (nonneg (rates.map (· - rates.sum / rates.length)))
  linarith

/-- All distances to the mean are zero where all rates are the same, and nowhere else. -/
theorem sq_sum_eq_iff :
    rates.sum ^ 2 = rates.length * sumSquares rates ↔ ∀ r ∈ rates, ∀ s ∈ rates, r = s := by
  constructor
  · intro hEqual r hr s hs
    have hDistances := sub_mean rates
    rw [hEqual, sub_self, mul_eq_zero, eq_zero_iff] at hDistances
    rcases hDistances with hNone | hMean
    · rw [List.length_eq_zero_iff.mp (Nat.cast_eq_zero.mp hNone)] at hr
      exact absurd hr List.not_mem_nil
    · have hAt (q : ℝ) (hq : q ∈ rates) : q = rates.sum / rates.length :=
        sub_eq_zero.mp (hMean _ (List.mem_map_of_mem hq))
      rw [hAt r hr, hAt s hs]
  · intro hSame
    cases rates with
    | nil => simp
    | cons rate rest =>
        have hRest : rest = List.replicate rest.length rate :=
          List.eq_replicate_of_mem fun s hs =>
            hSame s (List.mem_cons_of_mem _ hs) rate List.mem_cons_self
        have hZero : sumSquares ((rate :: rest).map (· - rate)) = 0 :=
          eq_zero_iff.mpr (List.forall_mem_map.mpr fun s hs =>
            sub_eq_zero.mpr (hSame s hs rate List.mem_cons_self))
        have hSum : (rate :: rest).sum = (rate :: rest).length * rate := by
          rw [hRest, ← List.replicate_succ, List.sum_replicate, List.length_replicate, nsmul_eq_mul]
        rw [sub, hSum] at hZero
        rw [hSum]
        linear_combination (-((rate :: rest).length : ℝ)) * hZero

/-- The square of a sum of rates that are not negative has their squares among its terms. -/
theorem le_sq_sum (nonneg : ∀ r ∈ rates, 0 ≤ r) : sumSquares rates ≤ rates.sum ^ 2 := by
  induction rates with
  | nil => simp
  | cons rate rest ih =>
      obtain ⟨hRate, hRest⟩ := List.forall_mem_cons.mp nonneg
      have hProduct := mul_nonneg hRate (List.sum_nonneg hRest)
      rw [cons, List.sum_cons]
      linarith [ih hRest]

end sumSquares

theorem fairnessIndex_eq (rates : List ℝ) :
    fairnessIndex rates =
      if sumSquares rates = 0 then 1 else rates.sum ^ 2 / (rates.length * sumSquares rates) := by
  have hZero : (0.0 : ℝ) = 0 := by norm_num
  have hOne : (1.0 : ℝ) = 1 := by norm_num
  unfold fairnessIndex
  simp only [Scalar.sum_eq_sum, hZero, hOne]
  rw [← sq]
  exact if_congr ⟨fun h => le_antisymm h.1 h.2, fun h => ⟨h.le, h.ge⟩⟩ rfl rfl

/-- The divisor of the index is positive unless all rates are zero. -/
theorem length_mul_sumSquares_pos {rates : List ℝ} (h : sumSquares rates ≠ 0) :
    0 < rates.length * sumSquares rates := by
  have hSome : rates ≠ [] := fun hNone => h (hNone ▸ rfl)
  exact mul_pos (Nat.cast_pos.mpr (List.length_pos_iff.mpr hSome))
    ((sumSquares.nonneg rates).lt_of_ne' h)

/-- The index of any rates is between zero and one, and one exactly for an even share. Among rates that are
not negative the worst share is that of a single one, out of their number. Neither the order of the rates
nor their unit matters. -/
theorem fairnessIndex_measures_evenness (rates : List ℝ) :
    (0 ≤ fairnessIndex rates ∧ fairnessIndex rates ≤ 1) ∧
      ((∀ r ∈ rates, 0 ≤ r) → (∃ r ∈ rates, r ≠ 0) → 1 / (rates.length : ℝ) ≤ fairnessIndex rates) ∧
      (fairnessIndex rates = 1 ↔ ∀ r ∈ rates, ∀ s ∈ rates, r = s) ∧
      (∀ other, other.Perm rates → fairnessIndex other = fairnessIndex rates) ∧
      ∀ c, c ≠ 0 → fairnessIndex (rates.map (c * ·)) = fairnessIndex rates := by
  have hPos (hSome : sumSquares rates ≠ 0) := length_mul_sumSquares_pos hSome
  refine ⟨?bounds, fun hNonneg hSome => ?least, ?even, fun other hPerm => ?order, fun c hc => ?unit⟩
  case bounds =>
    rw [fairnessIndex_eq]
    split
    · norm_num
    · next hSome =>
        exact ⟨div_nonneg (sq_nonneg _) (hPos hSome).le,
          (div_le_one (hPos hSome)).mpr (sumSquares.sq_sum_le rates)⟩
  case least =>
    have hSquares : sumSquares rates ≠ 0 := fun hZero => by
      obtain ⟨r, hr, hRate⟩ := hSome
      exact hRate (sumSquares.eq_zero_iff.mp hZero r hr)
    rw [fairnessIndex_eq, if_neg hSquares]
    calc 1 / (rates.length : ℝ) = sumSquares rates / (rates.length * sumSquares rates) := by
          field_simp
      _ ≤ rates.sum ^ 2 / (rates.length * sumSquares rates) :=
          div_le_div_of_nonneg_right (sumSquares.le_sq_sum hNonneg) (hPos hSquares).le
  case even =>
    rw [fairnessIndex_eq]
    split
    · next hZero =>
        have hRates := sumSquares.eq_zero_iff.mp hZero
        simp only [true_iff]
        intro r hr s hs
        rw [hRates r hr, hRates s hs]
    · next hSome => rw [div_eq_one_iff_eq (hPos hSome).ne', sumSquares.sq_sum_eq_iff]
  case order =>
    rw [fairnessIndex_eq, fairnessIndex_eq, sumSquares.perm hPerm, hPerm.sum_eq, hPerm.length_eq]
  case unit =>
    have hSum : (rates.map (c * ·)).sum = c * rates.sum := by
      rw [List.sum_map_mul_left, List.map_id']
    have hSquare : c ^ 2 ≠ 0 := pow_ne_zero 2 hc
    rw [fairnessIndex_eq, fairnessIndex_eq, sumSquares.scale, hSum, List.length_map, mul_pow]
    refine if_congr (mul_eq_zero_iff_left hSquare) rfl ?_
    rw [mul_left_comm, mul_div_mul_left _ _ hSquare]

/-- One of four flows has the whole link, in whatever unit and order. -/
theorem fairnessIndex_of_single_flow :
    let rates : List ℝ := [0, 8, 0, 0]
    (∀ r ∈ rates, 0 ≤ r) ∧ (∃ r ∈ rates, r ≠ 0) ∧ 1 / (rates.length : ℝ) ≤ fairnessIndex rates ∧
      fairnessIndex rates = 1 / 4 ∧ fairnessIndex rates ≠ 1 ∧
      fairnessIndex [8, 0, 0, 0] = fairnessIndex rates ∧
      fairnessIndex (rates.map ((-3) * ·)) = fairnessIndex rates := by
  intro rates
  have hNonneg : ∀ r ∈ rates, 0 ≤ r := by norm_num [rates]
  have hSome : ∃ r ∈ rates, r ≠ 0 := ⟨8, by simp [rates], by norm_num⟩
  have hPerm : [8, 0, 0, 0].Perm rates := List.Perm.swap 0 8 [0, 0]
  have hValue : fairnessIndex rates = 1 / 4 := by
    norm_num [fairnessIndex_eq, rates]
  obtain ⟨_, hLeast, _, hOrder, hUnit⟩ := fairnessIndex_measures_evenness rates
  refine ⟨hNonneg, hSome, hLeast hNonneg hSome, hValue, ?_, hOrder _ hPerm, hUnit _ (by norm_num)⟩
  rw [hValue]
  norm_num

end LoadFeedback
