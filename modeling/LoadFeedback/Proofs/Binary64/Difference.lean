import LoadFeedback.Proofs.Binary64.Accuracy

/-! The order of doubles is that of the numbers they stand for, and the difference of two of them is rounded
once, like their sum. -/
namespace LoadFeedback.Binary64

open Float.Model Float.Model.UnpackedFloat
open Float.Model.Format (binary64)

section

variable {a b c d : Int} {x y : Float} {m n : Nat} {e f : Int}

theorem mul_zpow_lt (hDigits : m.log2 = 52) (kDigits : n.log2 = 52) (less : e < f) :
    (m * 2 ^ e : ℚ) < n * 2 ^ f := by
  have hPos : m ≠ 0 := by rintro rfl; cases hDigits
  have kPos : n ≠ 0 := by rintro rfl; cases kDigits
  have hTo : (m : ℚ) < 2 ^ 53 := by exact_mod_cast ((Nat.log2_eq_iff hPos).mp hDigits).2
  have kFrom : (2 ^ 52 : ℚ) ≤ n := by exact_mod_cast ((Nat.log2_eq_iff kPos).mp kDigits).1
  have hPlace : (0 : ℚ) < 2 ^ e := zpow_pos two_pos e
  calc (m * 2 ^ e : ℚ) < 2 ^ 53 * 2 ^ e := mul_lt_mul_of_pos_right hTo hPlace
    _ = 2 ^ 52 * 2 ^ (e + 1) := by
        rw [zpow_add_one₀ two_ne_zero]
        ring
    _ ≤ n * 2 ^ f := mul_le_mul kFrom (zpow_le_zpow_right₀ one_le_two less) (by positivity)
        (Nat.cast_nonneg n)

/-- The order of positive numbers is that of their mantissas at a common exponent. -/
theorem mul_zpow_le_iff (hDigits : m.log2 = 52) (kDigits : n.log2 = 52) :
    (m * 2 ^ e : ℚ) ≤ n * 2 ^ f ↔ e < f ∨ e = f ∧ m ≤ n := by
  rcases lt_trichotomy e f with hBelow | rfl | hAbove
  · exact iff_of_true (mul_zpow_lt hDigits kDigits hBelow).le (Or.inl hBelow)
  · rw [mul_le_mul_iff_of_pos_right (zpow_pos two_pos e), Nat.cast_le]
    simp
  · refine iff_of_false (not_le.mpr (mul_zpow_lt kDigits hDigits hAbove)) ?_
    omega

/-- The order of numbers in range is that of what they stand for. -/
theorem Within.le_iff_value (h : Within a b x) (k : Within c d y) : x ≤ y ↔ value x ≤ value y := by
  rw [le_iff]
  rcases h with ⟨s, hRead⟩ | ⟨m, e, hm, hRead, hDigits, _⟩ <;>
    rcases k with ⟨t, kRead⟩ | ⟨n, f, hn, kRead, kDigits, _⟩ <;> rw [hRead, kRead]
  · rw [value_of_zero hRead, value_of_zero kRead]
    exact iff_of_true rfl (le_refl 0)
  · rw [value_of_zero hRead]
    exact iff_of_true rfl (value_nonneg y)
  · rw [value_of_finite hRead, value_of_zero kRead]
    refine iff_of_false nofun (not_le.mpr ?_)
    positivity
  · rw [value_of_finite hRead, value_of_finite kRead, le_finite_iff, mul_zpow_le_iff hDigits kDigits]

/-- A positive number less another one that is not above it. -/
theorem Spans.sub_of_le (h : Spans a b x) (k : Spans c d y) (le : y ≤ x)
    (least : -1021 ≤ min a c - 52) (greatest : b + 1 ≤ 1024) :
    Within (min a c - 52) (b + 1) (x - y) ∧ Near 1 (value x - value y) (value (x - y)) := by
  obtain ⟨m, e, hm, hRead, hDigits, hLow, hHigh⟩ := h
  obtain ⟨n, f, hn, kRead, kDigits, kLow, kHigh⟩ := k
  rw [le_iff, hRead, kRead, le_finite_iff] at le
  have hLe := shiftLeft_le_shiftLeft (e := e) (f := f) hDigits kDigits (by omega)
  have hExact : (m * 2 ^ e - n * 2 ^ f : ℚ) =
      (m <<< (e - min e f).toNat - n <<< (f - min e f).toNat : ℕ) * 2 ^ min e f := by
    rw [Nat.cast_sub hLe, sub_mul, shiftLeft_mul_zpow m (min_le_left e f),
      shiftLeft_mul_zpow n (min_le_right e f)]
  rw [value_of_finite hRead, value_of_finite kRead, hExact, sub_eq, hRead, kRead,
    sub_finite hm hn hLe]
  have hBelow := shiftLeft_lt hDigits (Nat.le_refl (e - min e f).toNat)
  generalize hi : (e - min e f).toNat = i at hBelow ⊢
  generalize hj : (f - min e f).toNat = j
  split
  · next hNone =>
      have hStored := unpack_pack_zero .positive
      rw [hNone, Nat.cast_zero, zero_mul]
      exact ⟨Or.inl ⟨_, hStored⟩, (value_of_zero hStored).symm ▸ .refl (le_refl 0)⟩
  · next hSome =>
      have hPos := Nat.pos_of_ne_zero hSome
      have hMost : (m <<< i - n <<< j).log2 < 53 + i :=
        (Nat.log2_lt hSome).mpr (Nat.lt_of_le_of_lt (Nat.sub_le _ _) hBelow)
      exact ⟨Or.inr (spans_round hPos (by omega) (by omega) least greatest),
        near_round hPos (by omega) (by omega)⟩

/-- A number less another one that is not above it. Nothing is rounded where zero is taken away. -/
theorem Within.sub_of_le (h : Within a b x) (k : Within c d y) (le : y ≤ x)
    (least : -1021 ≤ min a c - 52) (greatest : b + 1 ≤ 1024) :
    Within (min a c - 52) (b + 1) (x - y) ∧ Near 1 (value x - value y) (value (x - y)) := by
  have hValues := (k.le_iff_value h).mp le
  rcases h with ⟨s, hRead⟩ | hSpans
  · rcases k with ⟨t, kRead⟩ | ⟨n, f, hn, kRead, kDigits, kLow, kHigh⟩
    · obtain ⟨u, hStored⟩ : ∃ u, (x - y).toModel.unpack = .zero u := by
        rw [sub_eq, hRead, kRead]
        cases s <;> cases t <;> exact ⟨_, unpack_pack_zero _⟩
      rw [value_of_zero hRead, value_of_zero kRead, value_of_zero hStored, sub_zero]
      exact ⟨Or.inl ⟨u, hStored⟩, .refl (le_refl 0)⟩
    · rw [value_of_zero hRead, value_of_finite kRead] at hValues
      have hPos : (0 : ℚ) < n * 2 ^ f := by positivity
      exact absurd hValues (not_le.mpr hPos)
  · rcases k with ⟨t, kRead⟩ | kSpans
    · obtain ⟨m, e, hm, hRead, hDigits, hLow, hHigh⟩ := hSpans
      have hDifference : UnpackedFloat.sub binary64 (.finite .positive m e hm) (.zero t) =
          .finite .positive m e hm := rfl
      rw [value_of_finite hRead, value_of_zero kRead, sub_eq, hRead, kRead, sub_zero,
        value_pack hDifference hDigits (by omega) (by omega)]
      exact ⟨Or.inr (spans_pack hDifference hDigits (by omega) (by omega) least greatest),
        .refl (by positivity)⟩
    · exact hSpans.sub_of_le kSpans le least greatest

/-- The number with the other sign can be compared. -/
theorem zero_sub_le_self (h : Within a b x) (least : -1021 ≤ a) (greatest : b ≤ 1024) :
    0.0 - x ≤ 0.0 - x := by
  rw [le_iff, sub_eq, unpack_zero]
  rcases h with ⟨s, hRead⟩ | ⟨m, e, hm, hRead, hDigits, hLow, hHigh⟩ <;> rw [hRead]
  · cases s <;> rfl
  · have hStored := unpack_pack_finite .negative (e := e) hm hDigits (by omega)
    rw [if_pos (by omega)] at hStored
    change UnpackedFloat.le (Float.Model.pack (.finite .negative m e hm)).unpack
      (Float.Model.pack (.finite .negative m e hm)).unpack = true
    rw [hStored]
    simp [UnpackedFloat.le, UnpackedFloat.compare]

end
end LoadFeedback.Binary64
