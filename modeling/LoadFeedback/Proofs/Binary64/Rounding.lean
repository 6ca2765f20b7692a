import Mathlib
import LoadFeedback.Binary64

/-! How doubles are rounded and stored. A number whose leading digit is in range is rounded to
fifty-three digits; the leading digit stays where it is or moves up by one place. -/
namespace LoadFeedback.Binary64

open Float.Model Float.Model.UnpackedFloat
open Float.Model.Format (binary64)

theorem mantissa_shiftRight (em : ExtendedMantissa) (k : Nat) :
    (em >>> k).mantissa = em.mantissa / 2 ^ k := by
  induction k with
  | zero => exact (Nat.div_one _).symm
  | succ k ih =>
      change (em >>> k).mantissa / 2 = _
      rw [ih, Nat.div_div_eq_div_mul, Nat.pow_succ]

theorem mantissa_ofMantissaAndAccuracy (m : Nat) (accuracy : Accuracy) :
    (ExtendedMantissa.ofMantissaAndAccuracy m accuracy).mantissa = m := by
  unfold ExtendedMantissa.ofMantissaAndAccuracy
  split <;> rfl

/-- Rounding adds one to the mantissa, or nothing. -/
theorem roundedMantissa_cases (em : ExtendedMantissa) :
    em.roundedMantissa = em.mantissa ∨ em.roundedMantissa = em.mantissa + 1 := by
  obtain ⟨m, round, sticky⟩ := em
  cases round <;> cases sticky
  · exact Or.inl rfl
  · exact Or.inl rfl
  · change m + m % 2 = m ∨ m + m % 2 = m + 1
    omega
  · exact Or.inr rfl

/-- A shift to a place above takes digits off the mantissa. -/
theorem shiftToTargetExponent_eq (m : Nat) (e : Int) (accuracy : Accuracy) {k : Nat}
    (h : max (m.log2 + 1 + e - 53) (-1074) = e + k) :
    ∃ em : ExtendedMantissa, em.mantissa = m / 2 ^ k ∧
      shiftToTargetExponent binary64 m e accuracy = (em, e + k) := by
  have hTarget : binary64.targetExponent (totalExponent m e) = e + k := h
  have hAmount : (e + k - e).toNat = k := by omega
  refine ⟨ExtendedMantissa.ofMantissaAndAccuracy m accuracy >>> k, ?_, ?_⟩
  · rw [mantissa_shiftRight, mantissa_ofMantissaAndAccuracy]
  · simp only [shiftToTargetExponent, shiftToExponent, hTarget, hAmount]

/-- The leading fifty-three digits of a number. -/
theorem div_two_pow_bounds {m k : Nat} (h : m.log2 = 52 + k) :
    2 ^ 52 ≤ m / 2 ^ k ∧ m / 2 ^ k < 2 ^ 53 := by
  have hPos : m ≠ 0 := by
    rintro rfl
    rw [Nat.log2_zero] at h
    omega
  obtain ⟨hLow, hHigh⟩ := (Nat.log2_eq_iff hPos).mp h
  constructor
  · rw [Nat.le_div_iff_mul_le (Nat.two_pow_pos k), ← Nat.pow_add]
    exact hLow
  · rw [Nat.div_lt_iff_lt_mul (Nat.two_pow_pos k), ← Nat.pow_add]
    rwa [show 53 + k = 52 + k + 1 by omega]

theorem shiftLeft_pos {m : Nat} (h : 0 < m) (k : Nat) : 0 < m <<< k := by
  rw [Nat.shiftLeft_eq]
  exact Nat.mul_pos h (Nat.two_pow_pos k)

/-- Zeros behind a number leave its leading digit where it is. -/
theorem log2_shiftLeft {m : Nat} (h : 0 < m) (k : Nat) : (m <<< k).log2 = m.log2 + k := by
  obtain ⟨hLow, hHigh⟩ := (Nat.log2_eq_iff (Nat.ne_of_gt h)).mp rfl
  rw [Nat.log2_eq_iff (Nat.ne_of_gt (shiftLeft_pos h k)), Nat.shiftLeft_eq]
  constructor
  · rw [Nat.pow_add]
    exact Nat.mul_le_mul_right _ hLow
  · rw [show m.log2 + k + 1 = m.log2 + 1 + k by omega, Nat.pow_add]
    exact Nat.mul_lt_mul_of_pos_right hHigh (Nat.two_pow_pos k)

/-- The stored number is off the exact one by at most so many of the last of its fifty-three digits. -/
def Near (units : Nat) (exact stored : ℚ) : Prop :=
  |stored - exact| ≤ units * exact / 2 ^ 52

/-- What is left of a number when digits are taken off, rounded at the last digit that stays. -/
theorem near_rounded {m k r : Nat} (digits : m.log2 = 52 + k)
    (rounded : r = m / 2 ^ k ∨ r = m / 2 ^ k + 1) (e : Int) :
    Near 1 (m * 2 ^ e) (r * 2 ^ (e + k)) := by
  have hUnit : 2 ^ 52 * 2 ^ k ≤ m := by
    rw [← Nat.le_div_iff_mul_le (Nat.two_pow_pos k)]
    exact (div_two_pow_bounds digits).1
  have hParts := Nat.div_add_mod' m (2 ^ k)
  have hRest := Nat.mod_lt m (Nat.two_pow_pos k)
  have hOff : r * 2 ^ k ≤ m + 2 ^ k ∧ m ≤ r * 2 ^ k + 2 ^ k := by
    rcases rounded with rfl | rfl
    · omega
    · rw [Nat.add_mul, Nat.one_mul]
      omega
  have hMantissa : |(r * 2 ^ k - m : ℚ)| ≤ m / 2 ^ 52 := by
    have hUnit' : (2 ^ 52 * 2 ^ k : ℚ) ≤ m := by exact_mod_cast hUnit
    have hAbove : (r * 2 ^ k : ℚ) ≤ m + 2 ^ k := by exact_mod_cast hOff.1
    have hBelow : (m : ℚ) ≤ r * 2 ^ k + 2 ^ k := by exact_mod_cast hOff.2
    calc |(r * 2 ^ k - m : ℚ)| ≤ 2 ^ k := abs_le.mpr ⟨by linarith, by linarith⟩
      _ ≤ m / 2 ^ 52 := (le_div_iff₀' (by norm_num)).mpr hUnit'
  have hPlace : (0 : ℚ) < 2 ^ e := zpow_pos two_pos e
  calc |(r * 2 ^ (e + k) - m * 2 ^ e : ℚ)| = |(r * 2 ^ k - m : ℚ) * 2 ^ e| := by
        rw [zpow_add₀ two_ne_zero, zpow_natCast]
        ring_nf
    _ = |(r * 2 ^ k - m : ℚ)| * 2 ^ e := by rw [abs_mul, abs_of_pos hPlace]
    _ ≤ m / 2 ^ 52 * 2 ^ e := mul_le_mul_of_nonneg_right hMantissa hPlace.le
    _ = (1 : ℕ) * (m * 2 ^ e) / 2 ^ 52 := by
        rw [Nat.cast_one]
        ring

theorem roundWithAccuracy_of_shifts (s : Sign) {m : Nat} {e f : Int} {accuracy : Accuracy}
    {em last : ExtendedMantissa} {place : Int}
    (first : shiftToTargetExponent binary64 m e accuracy = (em, place))
    (second : shiftToTargetExponent binary64 em.roundedMantissa place .exact = (last, f))
    (h : 0 < last.mantissa) :
    roundWithAccuracy binary64 s m e accuracy = .finite s last.mantissa f h := by
  unfold roundWithAccuracy
  simp only [first, second]
  rw [dif_neg (Nat.ne_of_gt h)]

/-- Rounding keeps the sign, and leaves fifty-three digits with the leading one where it was or one
place above; the last of them is off by one at most. -/
theorem roundWithAccuracy_eq (s : Sign) {m : Nat} {e : Int} (accuracy : Accuracy)
    (digits : 52 ≤ m.log2) (range : -1021 ≤ m.log2 + 1 + e) :
    ∃ n f h, roundWithAccuracy binary64 s m e accuracy = .finite s n f h ∧ n.log2 = 52 ∧
      m.log2 + 1 + e ≤ f + 53 ∧ f + 53 ≤ m.log2 + 1 + e + 1 ∧ Near 1 (m * 2 ^ e) (n * 2 ^ f) := by
  obtain ⟨k, hDigits⟩ := Nat.exists_eq_add_of_le digits
  obtain ⟨em, hMantissa, hFirst⟩ := shiftToTargetExponent_eq m e accuracy (k := k) (by omega)
  obtain ⟨hLow, hHigh⟩ := div_two_pow_bounds hDigits
  have hRounded := roundedMantissa_cases em
  rw [hMantissa] at hRounded
  have hNear := near_rounded hDigits hRounded e
  rcases Nat.lt_or_ge em.roundedMantissa (2 ^ 53) with hSmall | hLarge
  · have hLog : em.roundedMantissa.log2 = 52 :=
      (Nat.log2_eq_iff (by omega)).mpr ⟨by omega, hSmall⟩
    obtain ⟨last, hLast, hSecond⟩ :=
      shiftToTargetExponent_eq em.roundedMantissa (e + k) .exact (k := 0) (by omega)
    rw [Nat.pow_zero, Nat.div_one] at hLast
    have hPos : 0 < last.mantissa := by omega
    refine ⟨_, _, hPos, roundWithAccuracy_of_shifts s hFirst hSecond hPos, ?_, ?_, ?_, ?_⟩
    · rw [hLast, hLog]
    · omega
    · omega
    · rw [hLast, Int.natCast_zero, Int.add_zero]
      exact hNear
  -- The mantissa has become a power of two, which is stored one place above.
  · have hPower : em.roundedMantissa = 2 ^ 53 := by omega
    have hLog : em.roundedMantissa.log2 = 53 := by rw [hPower, Nat.log2_two_pow]
    obtain ⟨last, hLast, hSecond⟩ :=
      shiftToTargetExponent_eq em.roundedMantissa (e + k) .exact (k := 1) (by omega)
    have hHalf : last.mantissa = 2 ^ 52 := by omega
    have hPos : 0 < last.mantissa := by omega
    refine ⟨_, _, hPos, roundWithAccuracy_of_shifts s hFirst hSecond hPos, ?_, ?_, ?_, ?_⟩
    · rw [hHalf, Nat.log2_two_pow]
    · omega
    · omega
    · have hValue : (last.mantissa * 2 ^ (e + k + 1) : ℚ) = em.roundedMantissa * 2 ^ (e + k) := by
        rw [hHalf, hPower, zpow_add_one₀ two_ne_zero]
        push_cast
        ring
      rw [Int.natCast_one, hValue]
      exact hNear

/-- A number with any digits is rounded likewise. -/
theorem round_eq (s : Sign) {m : Nat} {e : Int} (positive : 0 < m)
    (range : -1021 ≤ m.log2 + 1 + e) :
    ∃ n f h, UnpackedFloat.round binary64 s m e = .finite s n f h ∧ n.log2 = 52 ∧
      m.log2 + 1 + e ≤ f + 53 ∧ f + 53 ≤ m.log2 + 1 + e + 1 ∧ Near 1 (m * 2 ^ e) (n * 2 ^ f) := by
  have hTarget : binary64.targetExponent (totalExponent m e) = m.log2 - 52 + e := by
    change max (m.log2 + 1 + e - 53) (-1074 : Int) = _
    omega
  have hRound : UnpackedFloat.round binary64 s m e = roundWithAccuracy binary64 s
      (m <<< (52 - m.log2)) (e - (52 - m.log2 : Nat)) .exact := by
    have hAmount : (e - (m.log2 - 52 + e)).toNat = 52 - m.log2 := by omega
    simp only [UnpackedFloat.round, hTarget, decreaseExponent, hAmount]
  have hValue : ((m <<< (52 - m.log2) : ℕ) * 2 ^ (e - (52 - m.log2 : ℕ)) : ℚ) = m * 2 ^ e := by
    rw [Nat.shiftLeft_eq, Nat.cast_mul, Nat.cast_pow, mul_assoc, ← zpow_natCast, Nat.cast_ofNat,
      ← zpow_add₀ two_ne_zero, add_sub_cancel]
  have hLog := log2_shiftLeft positive (52 - m.log2)
  obtain ⟨n, f, h, hEq, hDigits, hLow, hHigh, hNear⟩ :=
    roundWithAccuracy_eq s (m := m <<< (52 - m.log2)) (e := e - (52 - m.log2 : Nat)) .exact
      (by omega) (by omega)
  rw [hValue] at hNear
  exact ⟨n, f, h, hRound.trans hEq, hDigits, by omega, by omega, hNear⟩

section

variable {spec : Format}

theorem unpackSign_packComponents (s : Sign) (e : BitVec spec.exponentBits)
    (m : BitVec spec.mantissaBitsWithoutImplicit) :
    unpackSign (packComponents spec s e m) = s.toBitVec := by
  ext i hi
  obtain rfl : i = 0 := by omega
  simp [unpackSign, packComponents, BitVec.getLsbD_append, BitVec.getElem_append,
    BitVec.getLsbD_eq_getElem]

end

theorem ofBitVec_toBitVec (s : Sign) : Sign.ofBitVec s.toBitVec = s := by
  cases s <;> rfl

theorem toNat_implicit (m : BitVec 52) : (1#1 ++ m).toNat = 2 ^ 52 + m.toNat := by
  rw [BitVec.toNat_append, ← Nat.shiftLeft_add_eq_or_of_lt m.isLt]
  rfl

theorem finite_congr (s : Sign) {m n : Nat} {e f : Int} (mantissa : m = n) (exponent : e = f)
    (h : 0 < m) (k : 0 < n) : UnpackedFloat.finite s m e h = .finite s n f k := by
  subst mantissa exponent
  rfl

/-- What is read back from three fields. -/
theorem unpack_packComponents (s : Sign) (e : BitVec 11) (m : BitVec 52) :
    UnpackedFloat.unpack binary64 (packComponents binary64 s e m) =
      if e = -1#11 then if m = 0#52 then .infinity s else .notANumber
      else if e = 0#11 then
        if h : m = 0#52 then .zero s
        else .finite s m.toNat (-1074) (by simpa [BitVec.toNat_pos, BitVec.pos_iff_ne_zero])
      else .finite s (2 ^ 52 + m.toNat) (e.toNat - 1075) (by omega) := by
  simp only [UnpackedFloat.unpack, unpackMantissa_packComponents, unpackExponent_packComponents,
    unpackSign_packComponents, ofBitVec_toBitVec]
  split
  · rfl
  · split
    · next hZero =>
        subst hZero
        split <;> rfl
    · exact finite_congr s (toNat_implicit m) rfl _ _

section

variable (b : BitVec 64)

theorem toNat_unpackMantissa : (@unpackMantissa binary64 b).toNat = b.toNat % 2 ^ 52 := by
  simp [unpackMantissa]

theorem toNat_unpackExponent :
    (@unpackExponent binary64 b).toNat = b.toNat / 2 ^ 52 % 2048 := by
  simp [unpackExponent, Nat.shiftRight_eq_div_pow]

theorem toNat_unpackSign : (@unpackSign binary64 b).toNat = b.toNat / 2 ^ 63 % 2 := by
  simp [unpackSign, Nat.shiftRight_eq_div_pow]

theorem ofBitVec_eq_negative (b : BitVec 1) :
    (Sign.ofBitVec b == .negative) = decide (b.toNat = 1) := by
  revert b
  decide

/-- What is read off the bits of a double is what its arithmetic reads off them. -/
theorem ofBits_toNat :
    ofBits b.toNat = match UnpackedFloat.unpack binary64 b with
      | .notANumber => .undefined
      | .infinity s => .infinite (s == .negative)
      | .zero s => .finite (s == .negative) 0 (-1074)
      | .finite s m e _ => .finite (s == .negative) m e := by
  have hTop : @unpackExponent binary64 b = -1#11 ↔ (@unpackExponent binary64 b).toNat = 2047 :=
    BitVec.toNat_inj.symm
  have hLeast : @unpackExponent binary64 b = 0#11 ↔ (@unpackExponent binary64 b).toNat = 0 :=
    BitVec.toNat_inj.symm
  have hEmpty : @unpackMantissa binary64 b = 0#52 ↔ (@unpackMantissa binary64 b).toNat = 0 :=
    BitVec.toNat_inj.symm
  unfold ofBits UnpackedFloat.unpack
  simp only [Nat.pow_eq, ← toNat_unpackSign, ← toNat_unpackExponent, ← toNat_unpackMantissa,
    ← ofBitVec_eq_negative, hTop, hLeast, hEmpty]
  split
  · split <;> rfl
  · split
    · next hPlace =>
        by_cases hRest : (@unpackMantissa binary64 b).toNat = 0
        · simp only [hRest, ↓reduceDIte]
        · simp only [hRest, hPlace, ↓reduceDIte]
          rfl
    · change _ = Binary64.finite _ (1#1 ++ @unpackMantissa binary64 b).toNat _
      rw [toNat_implicit]
      rfl

end

theorem unpack_pack_infinity (s : Sign) :
    (Float.Model.pack (.infinity s)).unpack = .infinity s := by
  cases s <;> rfl

theorem unpack_pack_zero (s : Sign) : (Float.Model.pack (.zero s)).unpack = .zero s := by
  cases s <;> rfl

/-- The fields of a number, or those of an infinity if it is too large. -/
theorem pack_finite (s : Sign) {m : Nat} {e : Int} (h : 0 < m) :
    UnpackedFloat.pack binary64 (.finite s m e h) =
      if 2048 ≤ (e + 1075).toNat + 1 then packComponents binary64 s (-1#11) 0#52
      else if m.log2 = 52 then
        packComponents binary64 s (BitVec.ofNat 11 (e + 1075).toNat) (BitVec.ofNat 52 m)
      else packComponents binary64 s 0#11 (BitVec.ofNat 52 m) := by
  have hBias : (e + binary64.exponentBias + binary64.mantissaBitsWithoutImplicit).toNat =
      (e + 1075).toNat := by
    change (e + (1023 : Nat) + (52 : Nat)).toNat = _
    omega
  have hDigits : (m.log2 + 1 = binary64.mantissaBits) = (m.log2 = 52) := by
    change (m.log2 + 1 = 53) = _
    rw [Nat.add_right_cancel_iff]
  unfold UnpackedFloat.pack
  simp only [hBias, hDigits]
  rfl

theorem ofNat_ne_allOnes {b : Nat} (h : b + 1 < 2048) : BitVec.ofNat 11 b ≠ -1#11 := by
  intro hEq
  have hValue : b % 2048 = 2047 := congrArg BitVec.toNat hEq
  omega

/-- A normal number is read back as it was stored, unless it was too large. -/
theorem unpack_pack_finite (s : Sign) {m : Nat} {e : Int} (h : 0 < m) (digits : m.log2 = 52)
    (range : -1074 ≤ e) :
    (Float.Model.pack (.finite s m e h)).unpack =
      if e ≤ 971 then .finite s m e h else .infinity s := by
  change UnpackedFloat.unpack binary64 (UnpackedFloat.pack binary64 _) = _
  rw [pack_finite]
  split
  · next hLarge =>
      rw [if_neg (by omega), unpack_packComponents]
      rfl
  · next hSmall =>
      obtain ⟨hLow, hHigh⟩ := (Nat.log2_eq_iff (Nat.ne_of_gt h)).mp digits
      have hPlace : (BitVec.ofNat 11 (e + 1075).toNat).toNat = (e + 1075).toNat := by
        rw [BitVec.toNat_ofNat, Nat.mod_eq_of_lt (by omega)]
      have hRest : (BitVec.ofNat 52 m).toNat = m - 2 ^ 52 := by
        rw [BitVec.toNat_ofNat]
        omega
      have hZero : BitVec.ofNat 11 (e + 1075).toNat ≠ 0#11 := by
        intro hEq
        have hValue := congrArg BitVec.toNat hEq
        rw [hPlace] at hValue
        change (e + 1075).toNat = 0 at hValue
        omega
      rw [if_pos (by omega), unpack_packComponents, if_neg (ofNat_ne_allOnes (by omega)),
        if_neg hZero]
      exact finite_congr s (by omega) (by omega) _ _

/-- Zero with either sign, a positive number, or what is beyond all numbers. -/
def Nonneg : UnpackedFloat → Prop
  | .infinity .positive | .zero _ | .finite .positive .. => True
  | _ => False

/-- What is stored of a number has fifty-three digits, or is at the least place. -/
theorem digits_of_unpack {x : Float.Model} {s : Sign} {m : Nat} {e : Int} {h : 0 < m}
    (read : x.unpack = .finite s m e h) : m.log2 = 52 ∧ -1074 ≤ e ∨ e = -1074 := by
  unfold Float.Model.unpack UnpackedFloat.unpack at read
  dsimp only at read
  split at read
  · split at read <;> cases read
  · split at read
    · next hZero =>
        split at read
        · cases read
        · cases read
          right
          rw [hZero]
          rfl
    · next hZero =>
        cases read
        left
        have hRest := (@unpackMantissa binary64 x.toBits.toBitVec).isLt
        have hPlace : (@unpackExponent binary64 x.toBits.toBitVec).toNat ≠ 0 :=
          fun hEq => hZero (BitVec.eq_of_toNat_eq hEq)
        change _ < 2 ^ 52 at hRest
        constructor
        · rw [toNat_implicit, Nat.log2_eq_iff (by omega)]
          omega
        · change (-1074 : Int) ≤ _ - (1023 + 52)
          omega

/-- A positive number is not read back below zero, even if it was too small or too large to be
stored. -/
theorem nonneg_pack_finite {m : Nat} {e : Int} (h : 0 < m) :
    Nonneg (Float.Model.pack (.finite .positive m e h)).unpack := by
  change Nonneg (UnpackedFloat.unpack binary64 (UnpackedFloat.pack binary64 _))
  have hNumber {b : BitVec 11} (n : BitVec 52) (hOnes : b ≠ -1#11) :
      Nonneg (UnpackedFloat.unpack binary64
        (packComponents binary64 .positive b n)) := by
    rw [unpack_packComponents, if_neg hOnes]
    split
    · split <;> trivial
    · trivial
  rw [pack_finite]
  split
  · rw [unpack_packComponents]
    trivial
  · split
    · exact hNumber _ (ofNat_ne_allOnes (by omega))
    · exact hNumber _ (by decide)

end LoadFeedback.Binary64
