import LoadFeedback.Proofs.Binary64.Difference
import LoadFeedback.Proofs.Binary64.Positive

/-! The built-in tables over doubles. The windows of a decade lie between its ends, and the entries are not
below zero. What powers and logarithms come to is left to be assumed: logarithms keep to their decades, and
powers of positive numbers are not below zero. Then no flow of the program ever stalls. -/
namespace LoadFeedback.Binary64

open Float.Model

theorem spans_ten : Spans 4 4 10.0 :=
  spans_of_place (by with_unfolding_all rfl)

theorem value_ten : value 10.0 = 10 := by
  have hRead : (10.0 : Float).toModel.unpack = .finite .positive (10 * 2 ^ 49) (-49) (by decide) := by
    with_unfolding_all rfl
  rw [value_of_finite hRead]
  norm_num

theorem near_tenfold {a b : Int} {x : Float} (h : Spans a b x) (least : -1021 ≤ a) (k : Nat) (greatest : b + 5 * k ≤ 1024) :
    Spans a (b + 5 * k) (Window.tenfold x k) ∧
      Near (2 * k) (value x * 10 ^ k) (value (Window.tenfold x k)) := by
  have hOrder : a ≤ b := by
    obtain ⟨_, _, _, _, _, hLow, hHigh⟩ := h
    exact hLow.trans hHigh
  induction k with
  | zero =>
      rw [Window.tenfold, pow_zero, mul_one]
      exact ⟨h.mono (Int.le_refl a) (by omega), .refl (value_nonneg x)⟩
  | succ k ih =>
      obtain ⟨hSpans, hNear⟩ := ih (by omega)
      have hProduct := hSpans.near_mul spans_ten (by omega) (by omega)
      have hExact := hNear.mul_right (c := 10) (by norm_num)
      rw [value_ten] at hProduct
      rw [mul_assoc, ← pow_succ] at hExact
      have hBoth := hExact.trans hProduct (mul_nonneg (value_nonneg x) (by positivity)) (by omega)
      rw [Window.tenfold, Nat.mul_succ]
      exact ⟨(hSpans.mul spans_ten (by omega) (by omega)).mono (by omega) (by push_cast; omega), hBoth⟩

section

variable {d r : Nat}

theorem near_decadeStart (h : d ≤ 7) : Spans 1 36 (Window.decadeStart d : Float) ∧
    Near 14 (10 ^ d) (value (Window.decadeStart d)) := by
  obtain ⟨hSpans, hNear⟩ := near_tenfold spans_one (by decide) d (by omega)
  rw [value_one, one_mul] at hNear
  exact ⟨hSpans.mono (by decide) (by omega), hNear.mono (by positivity) (by omega)⟩

theorem near_tenth : Near 1 (1 / 10) (value 0.1) := by
  have hRead : (0.1 : Float).toModel.unpack =
      .finite .positive 7205759403792794 (-56) (by decide) := by
    with_unfolding_all rfl
  rw [value_of_finite hRead, Near, abs_le]
  norm_num

theorem near_decadeStep (h : d < 7) : Spans (-3) 27 (Window.decadeStep d : Float) ∧
    Near 25 (10 ^ d / 10) (value (Window.decadeStep d)) := by
  have hTenth : Spans (-3) (-3) (0.1 : Float) := spans_of_place (by with_unfolding_all rfl)
  obtain ⟨hSpans, hNear⟩ := near_tenfold hTenth (by decide) d (by omega)
  have hExact := near_tenth.mul_right (c := 10 ^ d) (by positivity)
  have hBoth := hExact.trans hNear (by positivity) (by norm_num)
  rw [one_div_mul_eq_div] at hBoth
  exact ⟨hSpans.mono (by decide) (by omega), hBoth.mono (by positivity) (by omega)⟩

/-- A window of the grid, by its decade and its place there. -/
theorem near_gridWindow (h : d < 7) (word : r < 2 ^ 64) :
    Spans 1 97 (Window.decadeStart d + Window.decadeStep d * Float.ofNat r : Float) ∧
      Near 35 (10 ^ d * (1 + r / 10))
        (value (Window.decadeStart d + Window.decadeStep d * Float.ofNat r)) := by
  obtain ⟨hStart, hStartNear⟩ := near_decadeStart h.le
  obtain ⟨hStep, hStepNear⟩ := near_decadeStep h
  generalize (Window.decadeStart d : Float) = start at hStart hStartNear ⊢
  generalize (Window.decadeStep d : Float) = step at hStep hStepNear ⊢
  have hCount := within_ofNat word
  have hCountNear := near_ofNat word
  generalize Float.ofNat r = count at hCount hCountNear ⊢
  have hStepWithin : Within (-3) 27 step := .inr hStep
  have hProduct := hStepWithin.mul hCount (by decide) (by decide)
  -- The step and the count are off already when their product is rounded.
  have hProductNear : Near 33 (10 ^ d / 10 * r) (value (step * count)) := by
    have hRounded := hStepWithin.near_mul hCount (by decide) (by decide)
    have hExact := hStepNear.mul_right (c := r) (Nat.cast_nonneg r)
    have hCounted := hCountNear.mul_right (value_nonneg step)
    rw [mul_comm (r : ℚ), mul_comm (value count)] at hCounted
    have hFactors := hExact.trans hCounted (by positivity) (by norm_num)
    have hBoth := hFactors.trans hRounded (by positivity) (by norm_num)
    exact hBoth
  have hStartWithin : Within 1 36 start := .inr hStart
  have hRounded := hStartWithin.near_add hProduct (by decide) (by decide)
  have hSum := (hStartNear.mono (by positivity) (by decide)).add hProductNear
  have hBoth := hSum.trans hRounded (by positivity) (by norm_num)
  have hExact : (10 ^ d + 10 ^ d / 10 * r : ℚ) = 10 ^ d * (1 + r / 10) := by ring
  rw [hExact] at hBoth
  exact ⟨hStart.add_within hProduct (by decide) (by decide), hBoth⟩

/-- The first window of a decade is its start, and each later one is a tenth of it further at least. -/
theorem decadeStart_le_gridWindow (h : d < 7) (inDecade : r < 90) : (Window.decadeStart d : Float) ≤
    Window.decadeStart d + Window.decadeStep d * Float.ofNat r := by
  rcases Nat.eq_zero_or_pos r with rfl | hLater
  · have hFirst : ∀ d : Fin 7, (Window.decadeStart d.val : Float) ≤
        Window.decadeStart d.val + Window.decadeStep d.val * Float.ofNat 0 := by decide +kernel
    exact hFirst ⟨d, h⟩
  · obtain ⟨hStart, hStartNear⟩ := near_decadeStart h.le
    obtain ⟨hWindow, hWindowNear⟩ := near_gridWindow h (r := r) (by omega)
    have hPower : (0 : ℚ) < 10 ^ d := by positivity
    have hTenth : (1 : ℚ) ≤ r := by exact_mod_cast hLater
    have hFurther : (10 ^ d * (1 + 1 / 10) : ℚ) ≤ 10 ^ d * (1 + r / 10) := by gcongr
    have hAbove := (abs_le.mp hStartNear).2
    have hBelow := (abs_le.mp hWindowNear).1
    refine (Within.le_iff_value (.inr hStart) (.inr hWindow)).mpr ?_
    push_cast at hAbove hBelow
    linarith

theorem gridWindow_le_decadeStart (h : d < 7) (inDecade : r < 90) :
    Window.decadeStart d + Window.decadeStep d * Float.ofNat r ≤
      (Window.decadeStart (d + 1) : Float) := by
  obtain ⟨hNext, hNextNear⟩ := near_decadeStart (d := d + 1) h
  obtain ⟨hWindow, hWindowNear⟩ := near_gridWindow h (r := r) (by omega)
  have hPower : (0 : ℚ) < 10 ^ d := by positivity
  have hLast : (r : ℚ) ≤ 89 := by exact_mod_cast Nat.le_of_lt_succ inDecade
  have hShort : (10 ^ d * (1 + r / 10) : ℚ) ≤ 10 ^ d * (1 + 89 / 10) := by gcongr
  have hAbove := (abs_le.mp hWindowNear).2
  have hBelow := (abs_le.mp hNextNear).1
  refine (Within.le_iff_value (.inr hWindow) (.inr hNext)).mpr ?_
  rw [pow_succ] at hBelow
  push_cast at hAbove hBelow
  linarith

end

/-- The logarithm of a number in a decade is not outside that decade, and zero or far from the least
doubles. The exact one is so, and rounding to one of the doubles next to it keeps this. -/
def LogsKeepDecades : Prop :=
  ∀ d < 7, ∀ x : Float, Window.decadeStart d ≤ x → x ≤ Window.decadeStart (d + 1) →
    Within (-60) 10 (Float.log10 x) ∧ Float.ofNat d ≤ Float.log10 x ∧
      Float.log10 x ≤ Float.ofNat (d + 1)

/-- No power of a positive number is below zero, whatever the exponent is. -/
def PowersStayNonneg : Prop :=
  ∀ x e : Float, 0.0 < x → e ≤ e → 0.0 ≤ Float.pow x e

/-- Two anchors, of which the second one is lower, but not by more than two thirds of the first one. -/
structure Falls (low high : Float) : Prop where
  spans_low : Spans (-9) 1 low
  spans_drop : Spans (-9) 1 (low - high)
  share : (low - high) * 1.5 ≤ low
  one_le_ratio : Window.decadeStart 0 ≤ low / high
  ratio_le_ten : low / high ≤ Window.decadeStart 1

instance (low high : Float) : Decidable (Falls low high) :=
  decidable_of_iff (Spans (-9) 1 low ∧ Spans (-9) 1 (low - high) ∧ (low - high) * 1.5 ≤ low ∧
      Window.decadeStart 0 ≤ low / high ∧ low / high ≤ Window.decadeStart 1)
    ⟨fun ⟨spans_low, spans_drop, share, one_le_ratio, ratio_le_ten⟩ =>
        ⟨spans_low, spans_drop, share, one_le_ratio, ratio_le_ten⟩,
      fun h => ⟨h.spans_low, h.spans_drop, h.share, h.one_le_ratio, h.ratio_le_ten⟩⟩

/-- Anchors that fall so from each decade to the next. -/
def Falling (anchors : Vector Float 8) : Prop :=
  ∀ d : Fin 7, Falls (anchors.get d.castSucc) (anchors.get d.succ)

instance (anchors : Vector Float 8) : Decidable (Falling anchors) :=
  inferInstanceAs (Decidable (∀ d : Fin 7, Falls (anchors.get d.castSucc) (anchors.get d.succ)))

theorem falling_increaseAnchors : Falling Window.increaseAnchors := by
  decide +kernel

theorem falling_limiterAnchors : Falling Window.limiterAnchors := by
  decide +kernel

theorem unpack_three_halves :
    (1.5 : Float).toModel.unpack = .finite .positive (3 * 2 ^ 51) (-52) (by decide) := by
  with_unfolding_all rfl

section

variable {d : Nat} {w low high : Float}

/-- How far the logarithm of a window has come in its decade. -/
theorem log_sub_decade_le (logs : LogsKeepDecades) (inGrid : d < 7)
    (least : Window.decadeStart d ≤ w) (most : w ≤ Window.decadeStart (d + 1)) :
    Within (-112) 11 (Float.log10 w - Float.ofNat d) ∧
      value (Float.log10 w - Float.ofNat d) ≤ 11 / 10 := by
  obtain ⟨hLog, hFrom, hTo⟩ := logs d inGrid w least most
  have hDecade := within_ofNat (s := d) (by omega)
  obtain ⟨hRange, hNear⟩ := hLog.sub_of_le hDecade hFrom (by decide) (by decide)
  have hLogLe := (hLog.le_iff_value (within_ofNat (s := d + 1) (by omega))).mp hTo
  have hNextNear := (abs_le.mp (near_ofNat (n := d + 1) (by omega))).2
  have hDecadeNear := (abs_le.mp (near_ofNat (n := d) (by omega))).1
  have hAbove := (abs_le.mp hNear).2
  have hSeven : (d : ℚ) < 7 := by exact_mod_cast inGrid
  push_cast at hNextNear hDecadeNear hAbove
  exact ⟨hRange, by linarith⟩

theorem logEntry_nonneg_of_falls (logs : LogsKeepDecades) (falls : Falls low high) (inGrid : d < 7)
    (least : Window.decadeStart d ≤ w) (most : w ≤ Window.decadeStart (d + 1)) :
    0.0 ≤ low - (low - high) * (Float.log10 w - Float.ofNat d) := by
  obtain ⟨hPart, hPartLe⟩ := log_sub_decade_le logs inGrid least most
  have hLow : Within (-9) 1 low := .inr falls.spans_low
  have hDrop : Within (-9) 1 (low - high) := .inr falls.spans_drop
  have hShare := falls.share
  generalize Float.log10 w - Float.ofNat d = part at hPart hPartLe ⊢
  generalize low - high = drop at hDrop hShare ⊢
  have hThreeHalves : Within 1 1 (1.5 : Float) := .inr (spans_of_place (by with_unfolding_all rfl))
  have hBound := hDrop.mul hThreeHalves (by decide) (by decide)
  have hBoundNear := (abs_le.mp (hDrop.near_mul hThreeHalves (by decide) (by decide))).1
  have hProduct := hDrop.mul hPart (by decide) (by decide)
  have hProductNear := (abs_le.mp (hDrop.near_mul hPart (by decide) (by decide))).2
  have hDropNonneg := value_nonneg drop
  have hPartOfDrop : value drop * value part ≤ value drop * (11 / 10) := by gcongr
  -- The part may be rounded to more than one, but the drop is so small that there is room.
  rw [hBound.le_iff_value hLow] at hShare
  have hLess : drop * part ≤ low := by
    rw [value_of_finite unpack_three_halves] at hBoundNear
    rw [hProduct.le_iff_value hLow]
    push_cast at hBoundNear hProductNear
    norm_num at hBoundNear hProductNear
    linarith
  exact (hLow.sub_of_le hProduct hLess (by decide) (by decide)).1.nonneg

theorem powerEntry_nonneg_of_falls (powers : PowersStayNonneg) (logs : LogsKeepDecades)
    {start : Float} (falls : Falls low high) (window : Spans 1 97 w)
    (decade : Spans 1 36 start) :
    0.0 ≤ low * Float.pow (w / start) (0.0 - Float.log10 (low / high)) := by
  obtain ⟨hSlope, _⟩ := logs 0 (by decide) (low / high) falls.one_le_ratio falls.ratio_le_ten
  have hBase := window.div decade (by decide) (by decide)
  exact mul_nonneg_of_spans falls.spans_low
    (powers _ _ hBase.reaches.pos (zero_sub_le_self hSlope (by decide) (by decide)))

end

/-- Where no power is below zero and logarithms keep to their decades, no entry of the built-in tables is
below zero. -/
theorem nonneg_standard (powers : PowersStayNonneg) (logs : LogsKeepDecades) :
    (WindowTables.standard : WindowTables Float).Nonneg := by
  have hDecade (i : Fin Window.gridSize) : i.val / Window.decadeSize < 7 := (Window.decadeOf i).isLt
  have hPlace (i : Fin Window.gridSize) : i.val % Window.decadeSize < 90 :=
    Nat.mod_lt _ (by decide)
  constructor
  · intro i
    have hStored : (WindowTables.standard : WindowTables Float).increase[i] =
        Window.logEntry Window.increaseAnchors i := by simp [WindowTables.standard]
    rw [hStored]
    exact logEntry_nonneg_of_falls logs (falling_increaseAnchors (Window.decadeOf i)) (hDecade i)
      (decadeStart_le_gridWindow (hDecade i) (hPlace i))
      (gridWindow_le_decadeStart (hDecade i) (hPlace i))
  · intro i
    have hStored : (WindowTables.standard : WindowTables Float).limiter[i] =
        Window.powerEntry Window.limiterAnchors i := by simp [WindowTables.standard]
    have hWord : i.val % Window.decadeSize < 2 ^ 64 := Nat.lt_trans (hPlace i) (by decide)
    rw [hStored]
    exact powerEntry_nonneg_of_falls powers logs (falling_limiterAnchors (Window.decadeOf i))
      (near_gridWindow (hDecade i) hWord).1 (near_decadeStart (hDecade i).le).1

section

variable (unit : PowersKeepUnit) (powers : PowersStayNonneg) (logs : LogsKeepDecades)

include unit powers logs

/-- With the built-in tables no flow stalls either, whatever a command line asks for. -/
theorem waits_with_standard_tables {arguments : List String} {o : Options Float} {s t : Simulation Float}
    {l : Ledger} {moves : List Simulation.Move} {id : Nat} {session : Session Float} {now : Instant}
    (accepted : CommandLine.parse? arguments = some o) (built : Simulation.build o .standard = .ok s)
    (recorded : Simulation.Recorded s moves l t) (found : t.session? id = some session)
    (handled : Simulation.Move.event (.start id) now ∈ moves)
    (numbers : session.flow.nextSeq < Flow.maxSeq) :
    1 ≤ session.flow.nextSeq - session.flow.acked :=
  waits_of_parse accepted built unit (nonneg_standard powers logs) recorded found handled numbers

/-- Without any arguments the simulation is built, and each of its flows that has begun waits for an
acknowledgment in every state. -/
theorem waits_by_default : ∃ s : Simulation Float, Simulation.build .standard .standard = .ok s ∧
    ∀ moves t l, Simulation.Recorded s moves l t → ∀ id session, t.session? id = some session →
      (∃ now, Simulation.Move.event (.start id) now ∈ moves) → session.flow.nextSeq < Flow.maxSeq →
      1 ≤ session.flow.nextSeq - session.flow.acked := by
  obtain ⟨s, hBuilt⟩ := Simulation.exists_standard
  have hAccepted : CommandLine.parse? [] = some .standard := rfl
  refine ⟨s, hBuilt, fun moves t l hRecorded id session hFound ⟨now, hStart⟩ hNumbers => ?_⟩
  exact waits_with_standard_tables unit powers logs hAccepted hBuilt hRecorded hFound hStart hNumbers

end
end LoadFeedback.Binary64
