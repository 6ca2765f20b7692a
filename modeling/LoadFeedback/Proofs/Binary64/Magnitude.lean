import LoadFeedback.Proofs.Binary64.Rounding

/-! The order of doubles, and how far the results of their arithmetic can lie apart. The place of a
number is that of its leading digit, the first place being that of one. Each operation moves it by a
bounded amount, so a computation of few steps on numbers in range stays in range. -/
namespace LoadFeedback.Binary64

open Float.Model Float.Model.UnpackedFloat
open Float.Model.Format (binary64)

section

variable (x y : Float)

/-- The order of doubles is that of what they stand for. -/
theorem le_iff : x ≤ y ↔ UnpackedFloat.le x.toModel.unpack y.toModel.unpack = true := by
  change decide (x.toModel ≤ y.toModel) = true ↔ _
  rw [decide_eq_true_eq]
  rfl

theorem add_eq : x + y =
    ⟨Float.Model.pack (UnpackedFloat.add binary64 x.toModel.unpack y.toModel.unpack)⟩ := rfl

theorem sub_eq : x - y =
    ⟨Float.Model.pack (UnpackedFloat.sub binary64 x.toModel.unpack y.toModel.unpack)⟩ := rfl

theorem mul_eq : x * y =
    ⟨Float.Model.pack (UnpackedFloat.mul binary64 x.toModel.unpack y.toModel.unpack)⟩ := rfl

theorem div_eq : x / y =
    ⟨Float.Model.pack (UnpackedFloat.div binary64 x.toModel.unpack y.toModel.unpack)⟩ := rfl

end

theorem unpack_zero : (0.0 : Float).toModel.unpack = .zero .positive := by
  with_unfolding_all rfl

theorem unpack_one :
    (1.0 : Float).toModel.unpack = .finite .positive (2 ^ 52) (-52) (by decide) := by
  with_unfolding_all rfl

theorem nonneg_iff (x : Float) : 0.0 ≤ x ↔ Nonneg x.toModel.unpack := by
  rw [le_iff, unpack_zero]
  cases x.toModel.unpack with
  | notANumber => simp [UnpackedFloat.le, UnpackedFloat.compare, Nonneg]
  | infinity s => cases s <;> simp [UnpackedFloat.le, UnpackedFloat.compare, Nonneg]
  | zero s => simp [UnpackedFloat.le, UnpackedFloat.compare, Nonneg]
  | finite s m e h => cases s <;> simp [UnpackedFloat.le, UnpackedFloat.compare, Nonneg]

/-- The order of two positive numbers is that of their exponents, and then that of their
mantissas. -/
theorem le_finite_iff {m n : Nat} {e f : Int} (h : 0 < m) (k : 0 < n) :
    UnpackedFloat.le (.finite .positive m e h) (.finite .positive n f k) = true ↔
      e < f ∨ e = f ∧ m ≤ n := by
  change Option.any Ordering.isLE (some ((compare e f).then (compare m n))) = true ↔ _
  rw [Option.any_some, Ordering.isLE_then_iff_or, Int.compare_eq_lt, Int.compare_eq_eq,
    Nat.isLE_compare]

/-- A whole number is rounded, unless it is zero. -/
theorem normalize_natCast (m : Nat) (e : Int) (s : Sign) :
    normalize binary64 m e s =
      if m = 0 then .zero s else UnpackedFloat.round binary64 .positive m e := by
  cases m with
  | zero => rfl
  | succ m => rfl

section

variable {m n : Nat} {e f : Int}

/-- Two positive numbers are added at the lesser of their exponents. -/
theorem add_finite (h : 0 < m) (k : 0 < n) :
    UnpackedFloat.add binary64 (.finite .positive m e h) (.finite .positive n f k) =
      UnpackedFloat.round binary64 .positive
        (m <<< (e - min e f).toNat + n <<< (f - min e f).toNat) (min e f) := by
  have hPos := Nat.add_pos_left (shiftLeft_pos h (e - min e f).toNat) (n <<< (f - min e f).toNat)
  change normalize binary64
    ((m <<< (e - min e f).toNat : Nat) + (n <<< (f - min e f).toNat : Nat)) (min e f) _ = _
  rw [← Int.natCast_add, normalize_natCast, if_neg (Nat.ne_of_gt hPos)]

/-- Two positive numbers are subtracted at the lesser of their exponents. -/
theorem sub_finite (h : 0 < m) (k : 0 < n)
    (le : n <<< (f - min e f).toNat ≤ m <<< (e - min e f).toNat) :
    UnpackedFloat.sub binary64 (.finite .positive m e h) (.finite .positive n f k) =
      if m <<< (e - min e f).toNat - n <<< (f - min e f).toNat = 0 then .zero .positive
      else UnpackedFloat.round binary64 .positive
        (m <<< (e - min e f).toNat - n <<< (f - min e f).toNat) (min e f) := by
  change normalize binary64
    ((m <<< (e - min e f).toNat : Nat) - (n <<< (f - min e f).toNat : Nat)) (min e f) _ = _
  rw [← Int.natCast_sub le, normalize_natCast]

/-- Two positive numbers are multiplied without loss, and then rounded. -/
theorem mul_finite (h : 0 < m) (k : 0 < n) :
    UnpackedFloat.mul binary64 (.finite .positive m e h) (.finite .positive n f k) =
      roundWithAccuracy binary64 .positive (m * n) (e + f) .exact := rfl

/-- A dividend is given fifty-three digits more, as many as the quotient is to have. -/
theorem div_finite (h : 0 < m) (k : 0 < n) (hDigits : m.log2 = 52) (kDigits : n.log2 = 52)
    (range : -1021 ≤ e - f) :
    UnpackedFloat.div binary64 (.finite .positive m e h) (.finite .positive n f k) =
      roundWithAccuracy binary64 .positive (m <<< 53 / n) (e - f - 53)
        (accuracyOfFraction (m <<< 53 % n) n) := by
  have hTarget : min (e - f)
      (binary64.targetExponent (totalExponent m e - totalExponent n f)) = e - f - 53 := by
    change min (e - f) (max (m.log2 + 1 + e - (n.log2 + 1 + f) - 53) (-1074 : Int)) = _
    omega
  have hAmount : (e - f - (e - f - 53)).toNat = 53 := by omega
  simp only [UnpackedFloat.div, divCore, hTarget, hAmount]
  rfl

/-- A quotient of two mantissas has fifty-three digits or fifty-four. -/
theorem quotient_bounds (hDigits : m.log2 = 52) (kDigits : n.log2 = 52) :
    2 ^ 52 ≤ m <<< 53 / n ∧ m <<< 53 / n < 2 ^ 54 := by
  have hPos : m ≠ 0 := by rintro rfl; cases hDigits
  have kPos : n ≠ 0 := by rintro rfl; cases kDigits
  obtain ⟨hFrom, hTo⟩ := (Nat.log2_eq_iff hPos).mp hDigits
  obtain ⟨kFrom, kTo⟩ := (Nat.log2_eq_iff kPos).mp kDigits
  rw [Nat.le_div_iff_mul_le (Nat.pos_of_ne_zero kPos),
    Nat.div_lt_iff_lt_mul (Nat.pos_of_ne_zero kPos), Nat.shiftLeft_eq]
  omega

theorem log2_quotient_bounds (hDigits : m.log2 = 52) (kDigits : n.log2 = 52) :
    52 ≤ (m <<< 53 / n).log2 ∧ (m <<< 53 / n).log2 < 54 := by
  obtain ⟨hFrom, hTo⟩ := quotient_bounds hDigits kDigits
  have hPos : m <<< 53 / n ≠ 0 := by omega
  exact ⟨(Nat.le_log2 hPos).mpr hFrom, (Nat.log2_lt hPos).mpr hTo⟩

/-- A product of two mantissas has a hundred and five digits or a hundred and six. -/
theorem log2_mul_bounds (hDigits : m.log2 = 52) (kDigits : n.log2 = 52) :
    104 ≤ (m * n).log2 ∧ (m * n).log2 < 106 := by
  have hPos : m ≠ 0 := by rintro rfl; cases hDigits
  have kPos : n ≠ 0 := by rintro rfl; cases kDigits
  obtain ⟨hFrom, hTo⟩ := (Nat.log2_eq_iff hPos).mp hDigits
  obtain ⟨kFrom, kTo⟩ := (Nat.log2_eq_iff kPos).mp kDigits
  rw [Nat.le_log2 (Nat.mul_ne_zero hPos kPos), Nat.log2_lt (Nat.mul_ne_zero hPos kPos)]
  constructor
  · rw [show 104 = 52 + 52 from rfl, Nat.pow_add]
    exact Nat.mul_le_mul hFrom kFrom
  · rw [show 106 = 52 + 1 + (52 + 1) from rfl, Nat.pow_add]
    exact Nat.mul_lt_mul'' hTo kTo

theorem shiftLeft_lt (digits : m.log2 = 52) {i k : Nat} (h : i ≤ k) :
    m <<< i < 2 ^ (53 + k) := by
  rcases Nat.eq_zero_or_pos m with rfl | hPos
  · rw [Nat.zero_shiftLeft]
    exact Nat.two_pow_pos _
  · rw [← Nat.log2_lt (Nat.ne_of_gt (shiftLeft_pos hPos i)), log2_shiftLeft hPos]
    omega

theorem le_shiftLeft (digits : m.log2 = 52) {i k : Nat} (h : i ≤ k) :
    2 ^ (52 + i) ≤ m <<< k := by
  have hPos : 0 < m := by
    rcases Nat.eq_zero_or_pos m with rfl | hPos
    · cases digits
    · exact hPos
  rw [← Nat.le_log2 (Nat.ne_of_gt (shiftLeft_pos hPos k)), log2_shiftLeft hPos]
  omega

theorem le_log2_shiftLeft_add (digits : m.log2 = 52) (i n : Nat) :
    52 + i ≤ (m <<< i + n).log2 := by
  have hLe : 2 ^ (52 + i) ≤ m <<< i + n :=
    Nat.le_trans (le_shiftLeft digits (Nat.le_refl i)) (Nat.le_add_right _ _)
  have hPos := Nat.lt_of_lt_of_le (Nat.two_pow_pos _) hLe
  exact (Nat.le_log2 (Nat.ne_of_gt hPos)).mpr hLe

theorem log2_shiftLeft_add_lt (hDigits : m.log2 = 52) (kDigits : n.log2 = 52) (i j : Nat) :
    (m <<< i + n <<< j).log2 < 53 + max i j + 1 := by
  have hFirst := shiftLeft_lt hDigits (Nat.le_max_left i j)
  have hSecond := shiftLeft_lt kDigits (Nat.le_max_right i j)
  have hLeast := le_log2_shiftLeft_add hDigits i (n <<< j)
  have hSome : m <<< i + n <<< j ≠ 0 := by
    intro hZero
    rw [hZero, Nat.log2_zero] at hLeast
    omega
  rw [Nat.log2_lt hSome, Nat.pow_succ]
  omega

/-- The greater of two numbers is the greater one at their lesser exponent. -/
theorem shiftLeft_le_shiftLeft (hDigits : m.log2 = 52) (kDigits : n.log2 = 52)
    (le : f < e ∨ f = e ∧ n ≤ m) :
    n <<< (f - min e f).toNat ≤ m <<< (e - min e f).toNat := by
  rcases le with hBelow | ⟨rfl, hLe⟩
  · rw [show (f - min e f).toNat = 0 by omega]
    calc n <<< 0 ≤ 2 ^ (53 + 0) := Nat.le_of_lt (shiftLeft_lt kDigits (Nat.le_refl 0))
      _ ≤ m <<< (e - min e f).toNat := le_shiftLeft hDigits (i := 1) (by omega)
  · rw [Nat.shiftLeft_eq, Nat.shiftLeft_eq]
    exact Nat.mul_le_mul_right _ hLe

end

/-- A positive number whose leading digit is between two places. -/
def Spans (low high : Int) (x : Float) : Prop :=
  ∃ m e h, x.toModel.unpack = .finite .positive m e h ∧ m.log2 = 52 ∧
    low ≤ e + 53 ∧ e + 53 ≤ high

/-- Zero, or a number whose leading digit is between two places. -/
def Within (low high : Int) (x : Float) : Prop :=
  (∃ s, x.toModel.unpack = .zero s) ∨ Spans low high x

/-- The place of the leading digit, if the number is positive and has all its digits. -/
def place? (x : Float) : Option Int :=
  match x.toModel.unpack with
  | .finite .positive m e _ => if m.log2 = 52 then some (e + 53) else none
  | _ => none

/-- What is at least one is beyond all numbers, or has its leading digit at the first place or
above. -/
theorem one_le_iff (x : Float) :
    1.0 ≤ x ↔ x.toModel.unpack = .infinity .positive ∨ ∃ high, Spans 1 high x := by
  rw [le_iff, unpack_one]
  constructor
  · intro hOne
    cases hRead : x.toModel.unpack with
    | notANumber => simp [hRead, UnpackedFloat.le, UnpackedFloat.compare] at hOne
    | infinity s =>
        cases s
        · simp [hRead, UnpackedFloat.le, UnpackedFloat.compare] at hOne
        · exact Or.inl rfl
    | zero s => simp [hRead, UnpackedFloat.le, UnpackedFloat.compare] at hOne
    | finite s m e h =>
        cases s
        · simp [hRead, UnpackedFloat.le, UnpackedFloat.compare] at hOne
        · rw [hRead, le_finite_iff] at hOne
          refine Or.inr ⟨_, m, e, h, hRead, ?_, by omega, Int.le_refl _⟩
          have hDigits := digits_of_unpack hRead
          omega
  · rintro (hInfinite | ⟨_, m, e, h, hRead, hDigits, hLow, _⟩)
    · rw [hInfinite]
      rfl
    · rw [hRead, le_finite_iff]
      have hMantissa := ((Nat.log2_eq_iff (Nat.ne_of_gt h)).mp hDigits).1
      omega

section

variable {a b c d low high : Int} {x y : Float}

theorem spans_of_place {p : Int} (h : place? x = some p) : Spans p p x := by
  unfold place? at h
  split at h
  · next m e hPos hRead =>
      split at h
      · next hDigits =>
          cases h
          exact ⟨m, e, hPos, hRead, hDigits, Int.le_refl _, Int.le_refl _⟩
      · cases h
  · cases h

theorem Spans.mono (h : Spans a b x) (hLow : low ≤ a) (hHigh : b ≤ high) : Spans low high x := by
  obtain ⟨m, e, hPos, hRead, hDigits, hFrom, hTo⟩ := h
  exact ⟨m, e, hPos, hRead, hDigits, by omega, by omega⟩

/-- The range of a number is found by evaluation. -/
theorem any_place?_iff : (place? x).any (fun p => low ≤ p ∧ p ≤ high) = true ↔ Spans low high x := by
  constructor
  · intro h
    cases hPlace : place? x with
    | none =>
        rw [hPlace] at h
        cases h
    | some p =>
        rw [hPlace] at h
        obtain ⟨hLow, hHigh⟩ := of_decide_eq_true h
        exact (spans_of_place hPlace).mono hLow hHigh
  · rintro ⟨m, e, hPos, hRead, hDigits, hLow, hHigh⟩
    have hPlace : place? x = some (e + 53) := by simp only [place?, hRead, hDigits, ↓reduceIte]
    rw [hPlace]
    exact decide_eq_true ⟨hLow, hHigh⟩

instance (low high : Int) (x : Float) : Decidable (Spans low high x) :=
  decidable_of_iff _ any_place?_iff

theorem Within.mono (h : Within a b x) (hLow : low ≤ a) (hHigh : b ≤ high) : Within low high x :=
  h.imp_right fun hSpans => hSpans.mono hLow hHigh

theorem Within.nonneg (h : Within a b x) : 0.0 ≤ x := by
  rw [nonneg_iff]
  rcases h with ⟨s, hRead⟩ | ⟨m, e, hPos, hRead, _⟩ <;> rw [hRead] <;> trivial

/-- A number in range is stored as it is. -/
theorem spans_pack {u : UnpackedFloat} {m : Nat} {e : Int} {h : 0 < m}
    (rounded : u = .finite .positive m e h) (digits : m.log2 = 52) (hLow : low ≤ e + 53)
    (hHigh : e + 53 ≤ high) (least : -1021 ≤ low) (greatest : high ≤ 1024) :
    Spans low high ⟨Float.Model.pack u⟩ := by
  refine ⟨m, e, h, ?_, digits, hLow, hHigh⟩
  rw [rounded]
  exact (unpack_pack_finite .positive h digits (by omega)).trans (if_pos (by omega))

theorem spans_roundWithAccuracy {m : Nat} {e : Int} (accuracy : Accuracy) (digits : 52 ≤ m.log2)
    (hLow : low ≤ m.log2 + 1 + e) (hHigh : m.log2 + 2 + e ≤ high) (least : -1021 ≤ low)
    (greatest : high ≤ 1024) :
    Spans low high ⟨Float.Model.pack (roundWithAccuracy binary64 .positive m e accuracy)⟩ := by
  obtain ⟨n, f, h, hRound, hDigits, hFrom, hTo, _⟩ :=
    roundWithAccuracy_eq .positive accuracy digits (e := e) (by omega)
  exact spans_pack hRound hDigits (by omega) (by omega) least greatest

theorem spans_round {m : Nat} {e : Int} (positive : 0 < m) (hLow : low ≤ m.log2 + 1 + e)
    (hHigh : m.log2 + 2 + e ≤ high) (least : -1021 ≤ low) (greatest : high ≤ 1024) :
    Spans low high ⟨Float.Model.pack (UnpackedFloat.round binary64 .positive m e)⟩ := by
  obtain ⟨n, f, h, hRound, hDigits, hFrom, hTo, _⟩ := round_eq .positive positive (e := e) (by omega)
  exact spans_pack hRound hDigits (by omega) (by omega) least greatest

namespace Spans

theorem mul (h : Spans a b x) (k : Spans c d y) (least : -1021 ≤ a + c - 1)
    (greatest : b + d + 1 ≤ 1024) : Spans (a + c - 1) (b + d + 1) (x * y) := by
  obtain ⟨m, e, hm, hRead, hDigits, hLow, hHigh⟩ := h
  obtain ⟨n, f, hn, kRead, kDigits, kLow, kHigh⟩ := k
  obtain ⟨hLeast, hMost⟩ := log2_mul_bounds hDigits kDigits
  rw [mul_eq, hRead, kRead, mul_finite]
  exact spans_roundWithAccuracy .exact (by omega) (by omega) (by omega) least greatest

theorem div (h : Spans a b x) (k : Spans c d y) (least : -1021 ≤ a - d)
    (greatest : b - c + 2 ≤ 1024) : Spans (a - d) (b - c + 2) (x / y) := by
  obtain ⟨m, e, hm, hRead, hDigits, hLow, hHigh⟩ := h
  obtain ⟨n, f, hn, kRead, kDigits, kLow, kHigh⟩ := k
  obtain ⟨hLeast, hMost⟩ := log2_quotient_bounds hDigits kDigits
  rw [div_eq, hRead, kRead, div_finite hm hn hDigits kDigits (by omega)]
  exact spans_roundWithAccuracy _ hLeast (by omega) (by omega) least greatest

theorem add (h : Spans a b x) (k : Spans c d y) (least : -1021 ≤ a)
    (greatest : max b d + 2 ≤ 1024) : Spans a (max b d + 2) (x + y) := by
  obtain ⟨m, e, hm, hRead, hDigits, hLow, hHigh⟩ := h
  obtain ⟨n, f, hn, kRead, kDigits, kLow, kHigh⟩ := k
  rw [add_eq, hRead, kRead, add_finite]
  generalize hi : (e - min e f).toNat = i
  generalize hj : (f - min e f).toNat = j
  have hPos : 0 < m <<< i + n <<< j := Nat.add_pos_left (shiftLeft_pos hm i) _
  have hLeast := le_log2_shiftLeft_add hDigits i (n <<< j)
  have hMost := log2_shiftLeft_add_lt hDigits kDigits i j
  exact spans_round hPos (by omega) (by omega) least greatest

theorem zero_add {s : Sign} (h : x.toModel.unpack = .zero s) (k : Spans c d y) (least : -1021 ≤ c)
    (greatest : d ≤ 1024) : Spans c d (x + y) := by
  obtain ⟨n, f, hn, kRead, kDigits, kLow, kHigh⟩ := k
  rw [add_eq, h, kRead]
  exact spans_pack rfl kDigits kLow kHigh least greatest

theorem add_within (h : Spans a b x) (k : Within c d y) (least : -1021 ≤ a)
    (greatest : max b d + 2 ≤ 1024) : Spans a (max b d + 2) (x + y) := by
  rcases k with ⟨t, kRead⟩ | kSpans
  · obtain ⟨m, e, hm, hRead, hDigits, hLow, hHigh⟩ := h
    rw [add_eq, hRead, kRead]
    exact spans_pack rfl hDigits hLow (by omega) least greatest
  · exact h.add kSpans least greatest

/-- A number less another one that it is above. -/
theorem sub (h : Spans a b x) (k : Spans c d y) (above : ¬x ≤ y) (least : -1021 ≤ min a c - 52)
    (greatest : b + 1 ≤ 1024) : Within (min a c - 52) (b + 1) (x - y) := by
  obtain ⟨m, e, hm, hRead, hDigits, hLow, hHigh⟩ := h
  obtain ⟨n, f, hn, kRead, kDigits, kLow, kHigh⟩ := k
  rw [le_iff, hRead, kRead, le_finite_iff] at above
  have hLe := shiftLeft_le_shiftLeft (e := e) (f := f) hDigits kDigits (by omega)
  rw [sub_eq, hRead, kRead, sub_finite hm hn hLe]
  have hBelow := shiftLeft_lt hDigits (Nat.le_refl (e - min e f).toNat)
  generalize hi : (e - min e f).toNat = i at hBelow ⊢
  generalize hj : (f - min e f).toNat = j
  split
  · exact Or.inl ⟨_, unpack_pack_zero .positive⟩
  · next hSome =>
      right
      have hMost : (m <<< i - n <<< j).log2 < 53 + i :=
        (Nat.log2_lt hSome).mpr (Nat.lt_of_le_of_lt (Nat.sub_le _ _) hBelow)
      exact spans_round (Nat.pos_of_ne_zero hSome) (by omega) (by omega) least greatest

end Spans

namespace Within

theorem mul (h : Within a b x) (k : Within c d y) (least : -1021 ≤ a + c - 1)
    (greatest : b + d + 1 ≤ 1024) : Within (a + c - 1) (b + d + 1) (x * y) := by
  have hZero {s : Sign} {u v : UnpackedFloat} (hx : x.toModel.unpack = u)
      (hy : y.toModel.unpack = v) (hMul : UnpackedFloat.mul binary64 u v = .zero s) :
      Within (a + c - 1) (b + d + 1) (x * y) := by
    left
    rw [mul_eq, hx, hy, hMul]
    exact ⟨s, unpack_pack_zero s⟩
  rcases h with ⟨s, hRead⟩ | hSpans
  · rcases k with ⟨t, kRead⟩ | ⟨n, f, hn, kRead, _⟩
    · exact hZero hRead kRead rfl
    · exact hZero hRead kRead rfl
  · rcases k with ⟨t, kRead⟩ | kSpans
    · obtain ⟨m, e, hm, hRead, _⟩ := hSpans
      exact hZero hRead kRead rfl
    · exact Or.inr (hSpans.mul kSpans least greatest)

theorem div (h : Within a b x) (k : Spans c d y) (least : -1021 ≤ a - d)
    (greatest : b - c + 2 ≤ 1024) : Within (a - d) (b - c + 2) (x / y) := by
  rcases h with ⟨s, hRead⟩ | hSpans
  · obtain ⟨n, f, hn, kRead, _⟩ := k
    refine Or.inl ⟨s / .positive, ?_⟩
    rw [div_eq, hRead, kRead]
    exact unpack_pack_zero _
  · exact Or.inr (hSpans.div k least greatest)

theorem add (h : Within a b x) (k : Within c d y) (least : -1021 ≤ min a c)
    (greatest : max b d + 2 ≤ 1024) : Within (min a c) (max b d + 2) (x + y) := by
  rcases h with ⟨s, hRead⟩ | hSpans
  · rcases k with ⟨t, kRead⟩ | kSpans
    · refine Or.inl ⟨if s == t then s else .positive, ?_⟩
      rw [add_eq, hRead, kRead]
      cases s <;> cases t <;> exact unpack_pack_zero _
    · have hSum := kSpans.zero_add hRead (by omega) (by omega)
      exact Or.inr (hSum.mono (by omega) (by omega))
  · have hSum := hSpans.add_within k (by omega) greatest
    exact Or.inr (hSum.mono (by omega) (Int.le_refl _))

end Within

end

theorem spans_one : Spans 1 1 1.0 :=
  spans_of_place (by with_unfolding_all rfl)

/-- A count of at most fifty-three digits is converted, and then multiplied by a power of ten; a longer
one is rounded at once. -/
theorem ofNat_cases {n : Nat} (positive : 0 < n) :
    Float.ofNat n = ⟨Float.Model.pack (UnpackedFloat.round binary64 .positive n 0)⟩ * 1.0 ∨
      Float.ofNat n =
        ⟨Float.Model.pack (roundWithAccuracy binary64 .positive (n <<< 53) (-53) .exact)⟩ := by
  change Float.ofScientific n false 0 = _ ∨ Float.ofScientific n false 0 = _
  unfold Float.ofScientific
  split
  · next hShort =>
    left
    have hNat : n.toUInt64.toNat = n := Nat.mod_eq_of_lt (Nat.lt_trans hShort.1 (by decide))
    have hExact : n.toUInt64.toFloat =
        ⟨Float.Model.pack (UnpackedFloat.round binary64 .positive n 0)⟩ := by
      change (⟨Float.Model.pack (normalize binary64 (n.toUInt64.toNat : Int) 0 _)⟩ : Float) = _
      rw [hNat, normalize_natCast, if_neg (Nat.ne_of_gt positive)]
    have hUnit : Float.exactlyRepresentablePowersOfTen[0] = 1.0 := by with_unfolding_all rfl
    rw [← hExact, ← hUnit]
    rfl
  · right
    have hNotTiny : ¬(0 : Int) < -(2 ^ binary64.exponentBits + n.log2) := by
      change ¬(0 : Int) < -(2 ^ 11 + n.log2)
      omega
    have hLarge : UnpackedFloat.ofScientific binary64 n 0 =
        roundWithAccuracy binary64 .positive (n <<< 53 * 1) (-53 + 0) .exact := by
      unfold UnpackedFloat.ofScientific
      rw [dif_neg (Nat.ne_of_gt positive), if_neg (by decide), if_neg hNotTiny,
        if_pos (by decide)]
      rfl
    change (⟨Float.Model.pack (UnpackedFloat.ofScientific binary64 n 0)⟩ : Float) = _
    rw [hLarge, Nat.mul_one]
    rfl

/-- A count of a machine word, as a number. -/
theorem spans_ofNat {n : Nat} (positive : 0 < n) (word : n < 2 ^ 64) :
    Spans 1 67 (Float.ofNat n) := by
  have hLog : n.log2 < 64 := (Nat.log2_lt (Nat.ne_of_gt positive)).mpr word
  have hShifted := log2_shiftLeft positive 53
  rcases ofNat_cases positive with hSmall | hLarge
  · have hExact : Spans 1 65 ⟨Float.Model.pack (UnpackedFloat.round binary64 .positive n 0)⟩ :=
      spans_round positive (by omega) (by omega) (by decide) (by decide)
    rw [hSmall]
    exact hExact.mul spans_one (by decide) (by decide)
  · rw [hLarge]
    exact spans_roundWithAccuracy .exact (by omega) (by omega) (by omega) (by decide) (by decide)

end LoadFeedback.Binary64
