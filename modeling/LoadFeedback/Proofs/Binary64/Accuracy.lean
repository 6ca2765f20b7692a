import LoadFeedback.Proofs.Binary64.Bounds

/-! How far doubles are off the numbers they are computed from. Each operation rounds once, so a
computation of few steps is off by few of the last digits, a span is read to its nearest
millisecond, and a fifth of a granule is not read as more. -/
namespace LoadFeedback.Binary64

open Float.Model Float.Model.UnpackedFloat
open Float.Model.Format (binary64)

namespace Near

variable {k l : Nat} {p q v w : ℚ}

theorem refl (nonneg : 0 ≤ q) : Near k q q := by
  unfold Near
  rw [sub_self, abs_zero]
  positivity

theorem mono (h : Near k q v) (nonneg : 0 ≤ q) (le : k ≤ l) : Near l q v := by
  refine h.trans ?_
  gcongr

/-- Rounding what is already rounded. The last digit of the first number may count twice in the
second. -/
theorem trans (h : Near k q v) (next : Near l v w) (nonneg : 0 ≤ q) (few : k ≤ 2 ^ 52) :
    Near (k + 2 * l) q w := by
  have hFew : (k : ℚ) ≤ 2 ^ 52 := by exact_mod_cast few
  have hTwice : v ≤ 2 * q := by
    have hAbove := (abs_le.mp h).2
    have hShare : k * q / 2 ^ 52 ≤ q := by
      rw [div_le_iff₀ (by norm_num), mul_comm]
      exact mul_le_mul_of_nonneg_left hFew nonneg
    linarith
  calc |w - q| ≤ |w - v| + |v - q| := abs_sub_le w v q
    _ ≤ l * v / 2 ^ 52 + k * q / 2 ^ 52 := add_le_add next h
    _ ≤ l * (2 * q) / 2 ^ 52 + k * q / 2 ^ 52 := by gcongr
    _ = (k + 2 * l : ℕ) * q / 2 ^ 52 := by
        push_cast
        ring

theorem mul_right (h : Near k q v) {c : ℚ} (nonneg : 0 ≤ c) : Near k (q * c) (v * c) := by
  unfold Near at h ⊢
  rw [← sub_mul, abs_mul, abs_of_nonneg nonneg]
  calc |v - q| * c ≤ k * q / 2 ^ 52 * c := mul_le_mul_of_nonneg_right h nonneg
    _ = k * (q * c) / 2 ^ 52 := by ring

theorem div_right (h : Near k q v) {c : ℚ} (nonneg : 0 ≤ c) : Near k (q / c) (v / c) := by
  rw [div_eq_mul_inv, div_eq_mul_inv]
  exact h.mul_right (inv_nonneg.mpr nonneg)

theorem add (h : Near k p v) (next : Near k q w) : Near k (p + q) (v + w) := by
  calc |v + w - (p + q)| = |(v - p) + (w - q)| := by ring_nf
    _ ≤ |v - p| + |w - q| := abs_add_le _ _
    _ ≤ k * p / 2 ^ 52 + k * q / 2 ^ 52 := add_le_add h next
    _ = k * (p + q) / 2 ^ 52 := by ring

end Near

/-- The number that a double stands for, if it is positive; zero otherwise. -/
def value (x : Float) : ℚ :=
  match x.toModel.unpack with
  | .finite .positive m e _ => m * 2 ^ e
  | _ => 0

section

variable {a b c d low high : Int} {x y : Float}

theorem value_of_finite {m : Nat} {e : Int} {h : 0 < m}
    (read : x.toModel.unpack = .finite .positive m e h) : value x = m * 2 ^ e := by
  rw [value, read]

theorem value_of_zero {s : Sign} (read : x.toModel.unpack = .zero s) : value x = 0 := by
  rw [value, read]

theorem value_nonneg (x : Float) : 0 ≤ value x := by
  unfold value
  split
  · positivity
  · exact le_refl 0

/-- A number in range is stored as it is. -/
theorem value_pack {u : UnpackedFloat} {m : Nat} {e : Int} {h : 0 < m}
    (rounded : u = .finite .positive m e h) (digits : m.log2 = 52) (least : -1021 ≤ e + 53)
    (greatest : e + 53 ≤ 1024) : value ⟨Float.Model.pack u⟩ = m * 2 ^ e := by
  have hStored : (Float.Model.pack u).unpack = .finite .positive m e h := by
    rw [rounded]
    exact (unpack_pack_finite .positive h digits (by omega)).trans (if_pos (by omega))
  exact value_of_finite hStored

theorem near_roundWithAccuracy {m : Nat} {e : Int} (accuracy : Accuracy) (digits : 52 ≤ m.log2)
    (least : -1021 ≤ m.log2 + 1 + e) (greatest : m.log2 + 2 + e ≤ 1024) :
    Near 1 (m * 2 ^ e)
      (value ⟨Float.Model.pack (roundWithAccuracy binary64 .positive m e accuracy)⟩) := by
  obtain ⟨n, f, h, hRound, hDigits, hFrom, hTo, hNear⟩ :=
    roundWithAccuracy_eq .positive accuracy digits (e := e) least
  rw [value_pack hRound hDigits (by omega) (by omega)]
  exact hNear

theorem near_round {m : Nat} {e : Int} (positive : 0 < m) (least : -1021 ≤ m.log2 + 1 + e)
    (greatest : m.log2 + 2 + e ≤ 1024) :
    Near 1 (m * 2 ^ e) (value ⟨Float.Model.pack (UnpackedFloat.round binary64 .positive m e)⟩) := by
  obtain ⟨n, f, h, hRound, hDigits, hFrom, hTo, hNear⟩ := round_eq .positive positive (e := e) least
  rw [value_pack hRound hDigits (by omega) (by omega)]
  exact hNear

/-- What a division leaves out is worth less than one of the last digits that it gives. -/
theorem near_quotient {m n : Nat} (digits : 2 ^ 52 ≤ m / n) : Near 1 (m / n) (m / n : ℕ) := by
  have hFloor : ((m / n : ℕ) : ℚ) ≤ m / n := Nat.cast_div_le
  have hRest : (m / n : ℚ) < (m / n : ℕ) + 1 := by
    rw [← Nat.floor_div_eq_div (K := ℚ)]
    exact Nat.lt_floor_add_one _
  have hDigits : (2 ^ 52 : ℚ) ≤ (m / n : ℕ) := by exact_mod_cast digits
  have hLast : (1 : ℚ) ≤ m / n / 2 ^ 52 := by
    rw [le_div_iff₀ (by norm_num), one_mul]
    exact hDigits.trans hFloor
  calc |((m / n : ℕ) - m / n : ℚ)| ≤ 1 := abs_le.mpr ⟨by linarith, by linarith⟩
    _ ≤ (1 : ℕ) * (m / n) / 2 ^ 52 := by rwa [Nat.cast_one, one_mul]

/-- A number at an exponent below its own. -/
theorem shiftLeft_mul_zpow {e place : Int} (m : Nat) (le : place ≤ e) :
    ((m <<< (e - place).toNat : ℕ) * 2 ^ place : ℚ) = m * 2 ^ e := by
  have hAmount : ((e - place).toNat : Int) = e - place := by omega
  rw [Nat.shiftLeft_eq, Nat.cast_mul, Nat.cast_pow, mul_assoc, ← zpow_natCast, Nat.cast_ofNat,
    ← zpow_add₀ two_ne_zero, hAmount, sub_add_cancel]

namespace Spans

theorem near_mul (h : Spans a b x) (k : Spans c d y) (least : -1021 ≤ a + c - 1)
    (greatest : b + d + 1 ≤ 1024) : Near 1 (value x * value y) (value (x * y)) := by
  obtain ⟨m, e, hm, hRead, hDigits, hLow, hHigh⟩ := h
  obtain ⟨n, f, hn, kRead, kDigits, kLow, kHigh⟩ := k
  obtain ⟨hLeast, hMost⟩ := log2_mul_bounds hDigits kDigits
  have hExact : (m * 2 ^ e * (n * 2 ^ f) : ℚ) = (m * n : ℕ) * 2 ^ (e + f) := by
    rw [zpow_add₀ two_ne_zero, Nat.cast_mul]
    ring
  rw [value_of_finite hRead, value_of_finite kRead, hExact, mul_eq, hRead, kRead, mul_finite]
  exact near_roundWithAccuracy .exact (by omega) (by omega) (by omega)

theorem near_div (h : Spans a b x) (k : Spans c d y) (least : -1021 ≤ a - d)
    (greatest : b - c + 2 ≤ 1024) : Near 3 (value x / value y) (value (x / y)) := by
  obtain ⟨m, e, hm, hRead, hDigits, hLow, hHigh⟩ := h
  obtain ⟨n, f, hn, kRead, kDigits, kLow, kHigh⟩ := k
  obtain ⟨hFrom, hTo⟩ := quotient_bounds hDigits kDigits
  obtain ⟨hLeast, hMost⟩ := log2_quotient_bounds hDigits kDigits
  have hExact : (m * 2 ^ e / (n * 2 ^ f) : ℚ) = (m <<< 53 : ℕ) / n * 2 ^ (e - f - 53) := by
    have hUnit : (2 ^ 53 : ℚ) * 2 ^ (e - f - 53) = 2 ^ e / 2 ^ f := by
      rw [← zpow_sub₀ two_ne_zero, ← zpow_natCast, ← zpow_add₀ two_ne_zero]
      norm_num
    rw [Nat.shiftLeft_eq, mul_div_mul_comm, ← hUnit]
    push_cast
    ring
  have hWhole := (near_quotient hFrom).mul_right (zpow_nonneg (zero_le_two (α := ℚ)) (e - f - 53))
  have hStored := near_roundWithAccuracy (accuracyOfFraction (m <<< 53 % n) n) hLeast
    (e := e - f - 53) (by omega) (by omega)
  have hNonneg : 0 ≤ value x / value y := div_nonneg_iff.mpr (.inl ⟨value_nonneg x, value_nonneg y⟩)
  rw [value_of_finite hRead, value_of_finite kRead, hExact] at hNonneg ⊢
  rw [div_eq, hRead, kRead, div_finite hm hn hDigits kDigits (by omega)]
  have hBoth := hWhole.trans hStored hNonneg Nat.one_le_two_pow
  exact hBoth

theorem near_add (h : Spans a b x) (k : Spans c d y) (least : -1021 ≤ a)
    (greatest : max b d + 2 ≤ 1024) : Near 1 (value x + value y) (value (x + y)) := by
  obtain ⟨m, e, hm, hRead, hDigits, hLow, hHigh⟩ := h
  obtain ⟨n, f, hn, kRead, kDigits, kLow, kHigh⟩ := k
  -- Both numbers are brought to the lesser exponent, where their mantissas are added.
  have hExact : (m * 2 ^ e + n * 2 ^ f : ℚ) =
      (m <<< (e - min e f).toNat + n <<< (f - min e f).toNat : ℕ) * 2 ^ min e f := by
    rw [Nat.cast_add, add_mul, shiftLeft_mul_zpow m (min_le_left e f),
      shiftLeft_mul_zpow n (min_le_right e f)]
  rw [value_of_finite hRead, value_of_finite kRead, hExact, add_eq, hRead, kRead, add_finite]
  generalize hi : (e - min e f).toNat = i
  generalize hj : (f - min e f).toNat = j
  have hPos : 0 < m <<< i + n <<< j := Nat.add_pos_left (shiftLeft_pos hm i) _
  have hLeast := le_log2_shiftLeft_add hDigits i (n <<< j)
  have hMost := log2_shiftLeft_add_lt hDigits kDigits i j
  exact near_round hPos (by omega) (by omega)

end Spans

namespace Within

theorem near_mul (h : Within a b x) (k : Within c d y) (least : -1021 ≤ a + c - 1)
    (greatest : b + d + 1 ≤ 1024) : Near 1 (value x * value y) (value (x * y)) := by
  have hNone (exact : value x * value y = 0) (stored : ∃ s, (x * y).toModel.unpack = .zero s) :
      Near 1 (value x * value y) (value (x * y)) := by
    obtain ⟨s, hStored⟩ := stored
    rw [exact, value_of_zero hStored]
    exact .refl (le_refl 0)
  rcases h with ⟨s, hRead⟩ | hSpans
  · refine hNone (by rw [value_of_zero hRead, zero_mul]) ?_
    rw [mul_eq, hRead]
    rcases k with ⟨t, kRead⟩ | ⟨n, f, hn, kRead, _⟩ <;> rw [kRead] <;>
      exact ⟨_, unpack_pack_zero _⟩
  · rcases k with ⟨t, kRead⟩ | kSpans
    · obtain ⟨m, e, hm, hRead, _⟩ := hSpans
      refine hNone (by rw [value_of_zero kRead, mul_zero]) ?_
      rw [mul_eq, hRead, kRead]
      exact ⟨_, unpack_pack_zero _⟩
    · exact hSpans.near_mul kSpans least greatest

theorem near_div (h : Within a b x) (k : Spans c d y) (least : -1021 ≤ a - d)
    (greatest : b - c + 2 ≤ 1024) : Near 3 (value x / value y) (value (x / y)) := by
  rcases h with ⟨s, hRead⟩ | hSpans
  · obtain ⟨n, f, hn, kRead, _⟩ := k
    have hStored : (x / y).toModel.unpack = .zero (s / .positive) := by
      rw [div_eq, hRead, kRead]
      exact unpack_pack_zero _
    rw [value_of_zero hRead, value_of_zero hStored, zero_div]
    exact .refl (le_refl 0)
  · exact hSpans.near_div k least greatest

/-- Nothing is rounded where zero is added. -/
theorem near_add (h : Within a b x) (k : Within c d y) (least : -1021 ≤ min a c)
    (greatest : max b d + 2 ≤ 1024) : Near 1 (value x + value y) (value (x + y)) := by
  rcases h with ⟨s, hRead⟩ | hSpans
  · rcases k with ⟨t, kRead⟩ | ⟨n, f, hn, kRead, kDigits, kLow, kHigh⟩
    · have hStored : (x + y).toModel.unpack = .zero (if s == t then s else .positive) := by
        rw [add_eq, hRead, kRead]
        cases s <;> cases t <;> exact unpack_pack_zero _
      rw [value_of_zero hRead, value_of_zero kRead, value_of_zero hStored, add_zero]
      exact .refl (le_refl 0)
    · have hSum : UnpackedFloat.add binary64 (.zero s) (.finite .positive n f hn) =
          .finite .positive n f hn := rfl
      rw [value_of_zero hRead, value_of_finite kRead, add_eq, hRead, kRead, zero_add,
        value_pack hSum kDigits (by omega) (by omega)]
      exact .refl (by positivity)
  · rcases k with ⟨t, kRead⟩ | kSpans
    · obtain ⟨m, e, hm, hRead, hDigits, hLow, hHigh⟩ := hSpans
      have hSum : UnpackedFloat.add binary64 (.finite .positive m e hm) (.zero t) =
          .finite .positive m e hm := rfl
      rw [value_of_finite hRead, value_of_zero kRead, add_eq, hRead, kRead, add_zero,
        value_pack hSum hDigits (by omega) (by omega)]
      exact .refl (by positivity)
    · exact hSpans.near_add kSpans (by omega) greatest

end Within

end

section

variable {n : Nat}

theorem value_one : value 1.0 = 1 := by
  rw [value_of_finite unpack_one]
  norm_num

theorem value_ofNat_zero : value (Float.ofNat 0) = 0 :=
  value_of_zero unpack_ofNat_zero

theorem near_ofNat (word : n < 2 ^ 64) : Near 3 n (value (Float.ofNat n)) := by
  rcases Nat.eq_zero_or_pos n with rfl | hPos
  · rw [value_ofNat_zero]
    exact .refl (Nat.cast_nonneg 0)
  have hLog : n.log2 < 64 := (Nat.log2_lt (Nat.ne_of_gt hPos)).mpr word
  have hShifted := log2_shiftLeft hPos 53
  rcases ofNat_cases hPos with hSmall | hLarge
  · have hExact : Spans 1 65 ⟨Float.Model.pack (UnpackedFloat.round binary64 .positive n 0)⟩ :=
      spans_round hPos (by omega) (by omega) (by decide) (by decide)
    have hNear := near_round (e := 0) hPos (by omega) (by omega)
    have hProduct := hExact.near_mul spans_one (by decide) (by decide)
    rw [value_one, mul_one] at hProduct
    rw [zpow_zero, mul_one] at hNear
    have hBoth := hNear.trans hProduct (Nat.cast_nonneg n) Nat.one_le_two_pow
    rw [hSmall]
    exact hBoth
  · have hValue : ((n <<< 53 : ℕ) * 2 ^ (-53 : ℤ) : ℚ) = n := by
      rw [Nat.shiftLeft_eq, Nat.cast_mul, mul_assoc]
      norm_num
    have hNear := near_roundWithAccuracy (e := -53) .exact (m := n <<< 53) (by omega) (by omega) (by omega)
    rw [hValue, ← hLarge] at hNear
    exact hNear.mono (Nat.cast_nonneg n) (by decide)

end

section

variable {low high : Int} {x : Float}

theorem two_pow_toNat (e : Int) : (2 ^ e.toNat : ℚ) = 2 ^ e * 2 ^ (-e).toNat := by
  have hSum : (e.toNat : ℤ) = e + (-e).toNat := by omega
  rw [← zpow_natCast, ← zpow_natCast, ← zpow_add₀ two_ne_zero, hSum]

/-- The count nearest to a number is within a half of it. -/
theorem abs_roundHalfUp_sub_le (m : Nat) (e : Int) :
    |((Decimal.roundHalfUp (m * 2 ^ e.toNat) (2 ^ (-e).toNat) : ℕ) - m * 2 ^ e : ℚ)| ≤ 1 / 2 := by
  have hPos : (0 : ℚ) < 2 ^ (-e).toNat := by positivity
  have hAbove := Decimal.two_mul_roundHalfUp_mul_le (m * 2 ^ e.toNat) (2 ^ (-e).toNat)
  have hBelow := Decimal.two_mul_lt_roundHalfUp_mul (m * 2 ^ e.toNat) (Nat.two_pow_pos (-e).toNat)
  generalize Decimal.roundHalfUp (m * 2 ^ e.toNat) (2 ^ (-e).toNat) = r at hAbove hBelow ⊢
  have hAbove' : (r * 2 ^ (-e).toNat : ℚ) ≤ (m * 2 ^ e + 1 / 2) * 2 ^ (-e).toNat := by
    have hCast : (2 * (r * 2 ^ (-e).toNat) : ℚ) ≤ 2 * (m * 2 ^ e.toNat) + 2 ^ (-e).toNat := by
      exact_mod_cast hAbove
    rw [two_pow_toNat e] at hCast
    linarith
  have hBelow' : (m * 2 ^ e * 2 ^ (-e).toNat : ℚ) ≤ (r + 1 / 2) * 2 ^ (-e).toNat := by
    have hCast : (2 * (m * 2 ^ e.toNat) : ℚ) < 2 * (r * 2 ^ (-e).toNat) + 2 ^ (-e).toNat := by
      exact_mod_cast hBelow
    rw [two_pow_toNat e] at hCast
    linarith
  have hFrom := le_of_mul_le_mul_right hAbove' hPos
  have hTo := le_of_mul_le_mul_right hBelow' hPos
  exact abs_le.mpr ⟨by linarith, by linarith⟩

theorem abs_count_sub_le {m : Nat} {e : Int} (small : (m * 2 ^ e : ℚ) ≤ maxCount) :
    |(((Binary64.finite false m e).count Decimal.roundHalfUp 1 : ℕ) - m * 2 ^ e : ℚ)| ≤ 1 / 2 := by
  have hNear := abs_roundHalfUp_sub_le m e
  have hCount : (Binary64.finite false m e).count Decimal.roundHalfUp 1 =
      min maxCount (Decimal.roundHalfUp (m * 2 ^ e.toNat) (2 ^ (-e).toNat)) := by
    simp only [count, Nat.mul_one, Nat.pow_eq, Bool.false_eq_true, ↓reduceIte]
  generalize Decimal.roundHalfUp (m * 2 ^ e.toNat) (2 ^ (-e).toNat) = r at hNear hCount
  have hLe : r ≤ maxCount := by
    have hHalf := (abs_le.mp hNear).2
    have hLess : (r : ℚ) < (maxCount + 1 : ℕ) := by
      rw [Nat.cast_add_one]
      linarith
    exact Nat.lt_succ_iff.mp (Nat.cast_lt.mp hLess)
  rw [hCount, Nat.min_eq_right hLe]
  exact hNear

theorem abs_nearest_sub_le (h : Within low high x) (small : value x ≤ maxCount) :
    |(Scalar.nearest x - value x : ℚ)| ≤ 1 / 2 := by
  change |(((ofBits x.toModel.toBits.toBitVec.toNat).count Decimal.roundHalfUp 1 : ℕ) - _ : ℚ)| ≤ _
  rcases h with ⟨s, hRead⟩ | ⟨m, e, hm, hRead, _⟩
  · rw [value_of_zero hRead] at small ⊢
    change UnpackedFloat.unpack binary64 _ = _ at hRead
    rw [ofBits_toNat, hRead]
    cases s with
    | negative =>
        change |((0 : ℕ) - 0 : ℚ)| ≤ _
        norm_num
    | positive =>
        have hZero : ((0 : ℕ) * 2 ^ (-1074 : ℤ) : ℚ) = 0 := by rw [Nat.cast_zero, zero_mul]
        have hNear := abs_count_sub_le (hZero.trans_le (Nat.cast_nonneg maxCount))
        rw [hZero] at hNear
        exact hNear
  · rw [value_of_finite hRead] at small ⊢
    change UnpackedFloat.unpack binary64 _ = _ at hRead
    rw [ofBits_toNat, hRead]
    exact abs_count_sub_le small

theorem toNat_ofNatClamp_le (n : Nat) : (UInt64.ofNatClamp n).toNat ≤ n := by
  unfold UInt64.ofNatClamp
  split
  · exact Nat.le_refl n
  · next hLarge => exact Nat.le_trans (Nat.le_of_lt (UInt64.toNat_lt _)) (Nat.not_lt.mp hLarge)

/-- The whole part of a number is not above it. -/
theorem floor_le_value (h : Within low high x) : (Scalar.floor x : ℚ) ≤ value x := by
  change (((UnpackedFloat.toUInt64 x.toModel.unpack).toNat : ℕ) : ℚ) ≤ _
  rcases h with ⟨s, hRead⟩ | ⟨m, e, hm, hRead, _⟩
  · rw [value_of_zero hRead, hRead]
    exact le_of_eq (Nat.cast_eq_zero.mpr rfl)
  · rw [value_of_finite hRead, hRead]
    change (((UInt64.ofNatClamp (roundToInt .positive m e).toNat).toNat : ℕ) : ℚ) ≤ _
    rw [roundToInt_positive, Int.toNat_natCast, Nat.shiftLeft_eq]
    have hPos : (0 : ℚ) < 2 ^ (-e).toNat := by positivity
    calc ((UInt64.ofNatClamp (m * 2 ^ e.toNat / 2 ^ (-e).toNat)).toNat : ℚ)
        ≤ (m * 2 ^ e.toNat / 2 ^ (-e).toNat : ℕ) := Nat.cast_le.mpr (toNat_ofNatClamp_le _)
      _ ≤ (m * 2 ^ e.toNat : ℕ) / (2 ^ (-e).toNat : ℕ) := Nat.cast_div_le
      _ = m * 2 ^ e := by
          push_cast
          rw [two_pow_toNat, ← mul_assoc, mul_div_cancel_right₀ _ hPos.ne']

end

section

variable {s : Nat}

theorem unpack_billion :
    (1e9 : Float).toModel.unpack = .finite .positive (10 ^ 9 * 2 ^ 23) (-23) (by decide) := by
  with_unfolding_all rfl

theorem unpack_thousand :
    (1000.0 : Float).toModel.unpack = .finite .positive (1000 * 2 ^ 43) (-43) (by decide) := by
  with_unfolding_all rfl

theorem spans_thousand : Spans 10 10 1000.0 :=
  spans_of_place (by with_unfolding_all rfl)

theorem value_billion : value 1e9 = 10 ^ 9 := by
  rw [value_of_finite unpack_billion]
  norm_num

theorem value_thousand : value 1000.0 = 1000 := by
  rw [value_of_finite unpack_thousand]
  norm_num

/-- Six roundings lead to a number of seconds. -/
theorem near_seconds (word : s / 1000000000 < 2 ^ 64) :
    Near 11 (s / 10 ^ 9) (value (Span.seconds s)) := by
  have hRest : s % 1000000000 < 2 ^ 64 := by omega
  have hWhole : Near 9 (s / 1000000000 : ℕ) (value (Float.ofNat (s / 1000000000))) :=
    (near_ofNat word).mono (Nat.cast_nonneg _) (by decide)
  have hPart : Near 9 ((s % 1000000000 : ℕ) / 10 ^ 9)
      (value (Float.ofNat (s % 1000000000) / 1e9)) := by
    have hQuotient := (within_ofNat hRest).near_div spans_billion (by decide) (by decide)
    rw [value_billion] at hQuotient
    have hExact := (near_ofNat hRest).div_right (c := 10 ^ 9) (by norm_num)
    have hBoth := hExact.trans hQuotient (by positivity) (by norm_num)
    exact hBoth
  have hPartWithin := (within_ofNat hRest).div spans_billion (by decide) (by decide)
  have hSum := (within_ofNat word).near_add hPartWithin (by decide) (by decide)
  have hParts : ((s / 1000000000 : ℕ) + (s % 1000000000 : ℕ) / 10 ^ 9 : ℚ) = s / 10 ^ 9 := by
    have hDivMod : (s : ℚ) = (1000000000 * (s / 1000000000) + s % 1000000000 : ℕ) := by
      rw [Nat.div_add_mod]
    rw [hDivMod]
    push_cast
    ring
  have hBoth := (hWhole.add hPart).trans hSum (by positivity) (by norm_num)
  rw [hParts] at hBoth
  exact hBoth

theorem near_millis (word : s / 1000000000 < 2 ^ 64) :
    Near 13 (s / 10 ^ 6) (value ((Span.seconds s : Float) * 1000.0)) := by
  have hProduct := (within_seconds word).near_mul (.inr spans_thousand) (by decide) (by decide)
  have hExact := (near_seconds word).mul_right (c := 1000) (by norm_num)
  have hMillis : (s / 10 ^ 9 * 1000 : ℚ) = s / 10 ^ 6 := by ring
  rw [hMillis] at hExact
  rw [value_thousand] at hProduct
  have hBoth := hExact.trans hProduct (by positivity) (by norm_num)
  exact hBoth

/-- A span of less than three days is read to its nearest millisecond, as if nothing had been rounded: the
error is below a nanosecond, and spans are whole numbers of these. -/
theorem readsMillis (short : s < 2 ^ 48) : Span.ReadsMillis Float s := by
  have hWord : s / 1000000000 < 2 ^ 64 := by omega
  have hShort : (s : ℚ) < 2 ^ 48 := by exact_mod_cast short
  have hRange := (within_seconds hWord).mul (.inr spans_thousand) (by decide) (by decide)
  have hOff := near_millis hWord
  generalize hRead : (Span.seconds s : Float) * 1000.0 = x at hRange hOff
  have hOff' : |value x - s / 10 ^ 6| < 1 / 10 ^ 6 := by
    refine hOff.trans_lt ?_
    norm_num
    linarith
  -- To the error of the number of milliseconds comes the half that its nearest count is off.
  obtain ⟨hOffBelow, hOffAbove⟩ := abs_lt.mp hOff'
  have hSmall : value x ≤ maxCount := by
    have hCount : ((maxCount : ℕ) : ℚ) = 2 ^ 64 - 1 := by
      norm_num [maxCount, UInt64.size]
    rw [hCount]
    linarith
  obtain ⟨hBelow, hAbove⟩ := abs_le.mp (abs_nearest_sub_le hRange hSmall)
  have hNearest : Span.nearestMillis Float s = Scalar.nearest x := by rw [Span.nearestMillis, hRead]
  generalize Scalar.nearest x = n at hBelow hAbove hNearest
  rw [Span.ReadsMillis, hNearest]
  have hUpper : ((n * 1000000 : ℕ) : ℚ) < (s + 500000 + 1 : ℕ) := by
    push_cast
    linarith
  have hLower : ((s : ℕ) : ℚ) < (n * 1000000 + 500000 + 1 : ℕ) := by
    push_cast
    linarith
  exact ⟨Nat.lt_succ_iff.mp (Nat.cast_lt.mp hUpper), Nat.lt_succ_iff.mp (Nat.cast_lt.mp hLower)⟩

theorem unpack_fifth :
    (0.2 : Float).toModel.unpack = .finite .positive 7205759403792794 (-55) (by decide) := by
  with_unfolding_all rfl

theorem spans_fifth : Spans (-2) (-2) 0.2 :=
  spans_of_place (by with_unfolding_all rfl)

theorem value_fifth : value 0.2 = 7205759403792794 / 2 ^ 55 := by
  rw [value_of_finite unpack_fifth]
  norm_num

/-- A fifth is stored a little too large, but not so much that a whole number of fifths could be read as
one more. -/
theorem five_mul_slackMillis_le {granule : Span} (short : Span.granuleMillis granule < 2 ^ 48) :
    5 * Span.slackMillis Float granule ≤ Span.granuleMillis granule := by
  generalize hGranule : Span.granuleMillis granule = g at short
  have hWord : g < 2 ^ 64 := by omega
  have hShort : (g : ℚ) < 2 ^ 48 := by exact_mod_cast short
  have hProduct := (within_ofNat hWord).near_mul (.inr spans_fifth) (by decide) (by decide)
  have hRange := (within_ofNat hWord).mul (.inr spans_fifth) (by decide) (by decide)
  have hExact := (near_ofNat hWord).mul_right (c := value 0.2) (value_nonneg 0.2)
  have hOff := hExact.trans hProduct (mul_nonneg (Nat.cast_nonneg g) (value_nonneg 0.2)) (by norm_num)
  rw [value_fifth] at hOff
  have hSlack : Span.slackMillis Float granule = Scalar.floor (Float.ofNat g * 0.2) := by
    rw [← hGranule]
    rfl
  generalize Float.ofNat g * 0.2 = x at hOff hRange hSlack
  have hFloor := floor_le_value hRange
  have hAbove := (abs_le.mp hOff).2
  rw [hSlack]
  have hLess : ((5 * Scalar.floor x : ℕ) : ℚ) < (g + 1 : ℕ) := by
    push_cast at hAbove ⊢
    norm_num at hAbove
    linarith
  exact Nat.lt_succ_iff.mp (Nat.cast_lt.mp hLess)

end

end LoadFeedback.Binary64
