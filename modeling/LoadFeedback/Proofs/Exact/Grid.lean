import LoadFeedback.Proofs.Exact.Tables

/-! Where a window is looked up in the grid. In every decade the place follows from the window in steps of
that decade: to the nearest step below a hundred packets, and to the step below from there on. So what
holds of one decade holds of all of them, and of the seams between them. -/
namespace LoadFeedback.Window

theorem decadeStep_eq (b : Nat) : (decadeStep b : ℝ) = 10 ^ b / 10 := by
  rw [decadeStep, tenfold_eq]
  norm_num
  ring

theorem decadeStep_pos (b : Nat) : 0 < (decadeStep b : ℝ) := by
  rw [decadeStep_eq]
  positivity

theorem decadeStep_mono : Monotone (decadeStep : Nat → ℝ) := by
  intro a b h
  rw [decadeStep_eq, decadeStep_eq]
  have hPower : (10 : ℝ) ^ a ≤ 10 ^ b := pow_le_pow_right₀ (by norm_num) h
  linarith

/-- A decade begins with its tenth step, and its last step leads to the start of the next one. -/
theorem gridWindow_of_steps (b : Nat) {n : Nat} (h : n ≤ decadeSize) :
    (gridWindow (decadeSize * b + n) : ℝ) = (n + 10) * decadeStep b := by
  have hSize : 0 < decadeSize := by decide
  rw [gridWindow_eq, decadeStep_eq]
  rcases h.lt_or_eq with hInside | rfl
  · rw [Nat.mul_add_div hSize, Nat.div_eq_of_lt hInside, Nat.mul_add_mod, Nat.mod_eq_of_lt hInside]
    rw [Nat.add_zero]
    ring
  · rw [← Nat.mul_succ, Nat.mul_div_cancel_left _ hSize, Nat.mul_mod_right, pow_succ]
    norm_num [decadeSize]
    ring

theorem gridWindow_start (b : Nat) : (gridWindow (decadeSize * b) : ℝ) = 10 ^ b := by
  have hStart := gridWindow_of_steps b (Nat.zero_le _)
  rw [Nat.add_zero, decadeStep_eq] at hStart
  rw [hStart]
  push_cast
  ring

theorem gridWindow_succ (i : Nat) :
    (gridWindow (i + 1) : ℝ) = gridWindow i + decadeStep (i / decadeSize) := by
  have hMod : i % decadeSize < decadeSize := Nat.mod_lt i (by decide)
  have hHere := gridWindow_of_steps (i / decadeSize) hMod.le
  have hNext := gridWindow_of_steps (i / decadeSize) (Nat.succ_le_of_lt hMod)
  rw [Nat.add_succ, Nat.div_add_mod] at hNext
  rw [Nat.div_add_mod] at hHere
  rw [hHere, hNext]
  push_cast
  ring

theorem gridWindow_strictMono : StrictMono (gridWindow : Nat → ℝ) := by
  refine strictMono_nat_of_lt_succ fun i => ?_
  rw [gridWindow_succ]
  exact lt_add_of_pos_right _ (decadeStep_pos _)

/-- Two windows of the grid are at least a step apart, and so are all windows from some decade on. -/
theorem gridWindow_add_step_le {b i j : Nat} (decade : decadeSize * b ≤ i) (h : i < j) :
    gridWindow i + decadeStep b ≤ (gridWindow j : ℝ) := by
  have hDecade : b ≤ i / decadeSize := (Nat.le_div_iff_mul_le (by decide)).mpr (by rwa [Nat.mul_comm])
  calc gridWindow i + decadeStep b
    _ ≤ gridWindow i + decadeStep (i / decadeSize) := by gcongr; exact decadeStep_mono hDecade
    _ = gridWindow (i + 1) := (gridWindow_succ i).symm
    _ ≤ gridWindow j := gridWindow_strictMono.monotone h

/-- A window that lies in one of the tabulated decades. -/
structure InDecade (b : Nat) (c : ℝ) : Prop where
  lt : b < 7
  le_window : 10 ^ b ≤ c
  window_lt : c < 10 ^ (b + 1)

theorem decade_cases (c : ℝ) : c < 1 ∨ (∃ b, InDecade b c) ∨ 10 ^ 7 ≤ c := by
  rcases lt_or_ge c 1 with hBelow | hOne
  · exact .inl hBelow
  rcases lt_or_ge c (10 ^ 7) with hInside | hAbove
  · obtain ⟨b, hLow, hHigh⟩ := exists_nat_pow_near hOne (by norm_num : (1 : ℝ) < 10)
    have hDecade : (10 : ℝ) ^ b < 10 ^ 7 := hLow.trans_lt hInside
    exact .inr (.inl ⟨b, (pow_lt_pow_iff_right₀ (by norm_num)).mp hDecade, hLow, hHigh⟩)
  · exact .inr (.inr hAbove)

theorem place_of_lt_one {c : ℝ} (h : c < 1) : place c = 0 := by
  have hFloor : Scalar.floor c < 1 := (Nat.floor_lt' one_ne_zero).mpr (by exact_mod_cast h)
  simp only [place, if_pos hFloor]

theorem place_of_le {c : ℝ} (h : 10 ^ 7 ≤ c) : place c = gridSize - 1 := by
  have hFloor : 10000000 ≤ Scalar.floor c := Nat.le_floor (by norm_num at h ⊢; exact h)
  simp (disch := omega) only [place, if_neg]

/-- The part of a step that is rounded up to a whole one. -/
noncomputable def roundedPart (b : Nat) : ℝ := if b < 2 then 0.5 else 0

theorem roundedPart_nonneg (b : Nat) : 0 ≤ roundedPart b := by
  unfold roundedPart
  split <;> norm_num

theorem roundedPart_le (b : Nat) : roundedPart b ≤ 1 / 2 := by
  unfold roundedPart
  split <;> norm_num

/-- A window in whole steps of a decade. -/
noncomputable def steps (b : Nat) (c : ℝ) : Nat := ⌊c / decadeStep b + roundedPart b⌋₊

theorem steps_mono (b : Nat) : Monotone (steps b) := by
  intro c d h
  refine Nat.floor_mono ?_
  have hStep := (decadeStep_pos b).le
  gcongr

theorem steps_zero (c : ℝ) : steps 0 c = Scalar.floor (c * 10.0 + 0.5) := by
  change ⌊_⌋₊ = ⌊_⌋₊
  congr 1
  norm_num [decadeStep_eq, roundedPart, div_eq_mul_inv]

theorem steps_one (c : ℝ) : steps 1 c = Scalar.floor (c + 0.5) := by
  change ⌊_⌋₊ = ⌊_⌋₊
  congr 1
  norm_num [decadeStep_eq, roundedPart]

theorem steps_add_two (d : Nat) (c : ℝ) : steps (d + 2) c = Scalar.floor c / 10 ^ (d + 1) := by
  have hQuotient : c / decadeStep (d + 2) + roundedPart (d + 2) = c / ((10 ^ (d + 1) : ℕ) : ℝ) := by
    rw [decadeStep_eq, roundedPart, if_neg (by omega), pow_succ]
    push_cast
    ring
  rw [steps, hQuotient]
  exact Nat.floor_div_natCast c _

namespace InDecade

variable {b : Nat} {c : ℝ} (h : InDecade b c)
include h

theorem ten_le : 10 ≤ c / decadeStep b := by
  rw [le_div_iff₀ (decadeStep_pos b), decadeStep_eq]
  linarith [h.le_window]

theorem lt_hundred : c / decadeStep b < 100 := by
  have hHigh := h.window_lt
  rw [pow_succ] at hHigh
  rw [div_lt_iff₀ (decadeStep_pos b), decadeStep_eq]
  linarith

theorem ten_le_steps : 10 ≤ steps b c :=
  Nat.le_floor (by exact_mod_cast h.ten_le.trans (le_add_of_nonneg_right (roundedPart_nonneg b)))

theorem steps_le : steps b c ≤ 100 := by
  have hHigh : c / decadeStep b + roundedPart b < 101 := by
    linarith [h.lt_hundred, roundedPart_le b]
  exact Nat.le_of_lt_succ ((Nat.floor_lt' (by decide)).mpr (by exact_mod_cast hHigh))

/-- From a hundred packets on, nothing is rounded up into the next decade. -/
theorem steps_lt (exact : 2 ≤ b) : steps b c < 100 := by
  refine (Nat.floor_lt' (by decide)).mpr ?_
  rw [roundedPart, if_neg (by omega), add_zero]
  exact_mod_cast h.lt_hundred

/-- The nine branches of the lookup, as one rule for all decades. -/
theorem place_add_ten : place c + 10 = decadeSize * b + steps b c := by
  have hSteps := h.ten_le_steps
  have hBelow : 10 ^ b ≤ Scalar.floor c := Nat.le_floor (by exact_mod_cast h.le_window)
  have hAbove : Scalar.floor c < 10 ^ (b + 1) :=
    (Nat.floor_lt' (by positivity)).mpr (by exact_mod_cast h.window_lt)
  have hLast := h.lt
  dsimp only [place, decadeSize]
  match b with
  | 0 =>
    rw [steps_zero] at hSteps ⊢
    simp (disch := omega) only [if_neg, if_pos]
    omega
  | 1 =>
    rw [steps_one] at hSteps ⊢
    simp (disch := omega) only [if_neg, if_pos]
    omega
  | d + 2 =>
    rw [steps_add_two] at hSteps ⊢
    have hDecade : d < 5 := by omega
    generalize Scalar.floor c = w at hSteps hBelow hAbove ⊢
    interval_cases d
    all_goals
      norm_num at hSteps hBelow hAbove ⊢
      simp (disch := omega) only [if_neg, if_pos]
      omega

theorem place_eq : place c = decadeSize * b + (steps b c - 10) := by
  have hPlace := h.place_add_ten
  have hSteps := h.ten_le_steps
  omega

theorem le_place : decadeSize * b ≤ place c := h.place_eq ▸ Nat.le_add_right _ _

theorem place_le : place c ≤ decadeSize * (b + 1) := by
  have hPlace := h.place_add_ten
  have hSteps := h.steps_le
  rw [Nat.mul_succ, decadeSize] at *
  omega

theorem place_lt : place c < gridSize := by
  have hPlace := h.place_eq
  have hSteps := h.steps_le
  have hLast := h.lt
  rcases Nat.lt_or_ge b 2 with hRounded | hExact
  · rw [gridSize, decadeSize] at *
    omega
  · have hInside := h.steps_lt hExact
    rw [gridSize, decadeSize] at *
    omega

/-- The window at that place, less and more than the given one by parts of a step. -/
theorem gridWindow_place : gridWindow (place c) ≤ c + roundedPart b * decadeStep b ∧
    c + roundedPart b * decadeStep b < gridWindow (place c) + decadeStep b := by
  have hStep := decadeStep_pos b
  have hSteps := h.steps_le
  have hGrid : (gridWindow (place c) : ℝ) = steps b c * decadeStep b := by
    rw [h.place_eq, gridWindow_of_steps b (by rw [decadeSize]; omega),
      Nat.cast_sub h.ten_le_steps]
    push_cast
    ring
  have hWhole : c + roundedPart b * decadeStep b = (c / decadeStep b + roundedPart b) * decadeStep b := by
    field_simp
  have hNonneg : 0 ≤ c / decadeStep b + roundedPart b := by
    linarith [h.ten_le, roundedPart_nonneg b]
  rw [hGrid, hWhole, ← add_one_mul]
  exact ⟨mul_le_mul_of_nonneg_right (Nat.floor_le hNonneg) hStep.le,
    mul_lt_mul_of_pos_right (Nat.lt_floor_add_one _) hStep⟩

theorem gridWindow_place_of_lt (rounded : b < 2) :
    gridWindow (place c) - decadeStep b / 2 ≤ c ∧ c < gridWindow (place c) + decadeStep b / 2 := by
  have hBounds := h.gridWindow_place
  rw [roundedPart, if_pos rounded] at hBounds
  constructor <;> linarith

theorem gridWindow_place_of_le (exact : 2 ≤ b) :
    gridWindow (place c) ≤ c ∧ c < gridWindow (place c) + decadeStep b := by
  have hBounds := h.gridWindow_place
  rwa [roundedPart, if_neg (Nat.not_lt.mpr exact), zero_mul, add_zero] at hBounds

theorem abs_gridWindow_place_sub_le (rounded : b < 2) :
    |gridWindow (place c) - c| ≤ decadeStep b / 2 := by
  obtain ⟨hBelow, hAbove⟩ := h.gridWindow_place_of_lt rounded
  exact abs_le.mpr ⟨by linarith, by linarith⟩

/-- No later window of the grid is at most as large. -/
theorem le_place_of_gridWindow_le (exact : 2 ≤ b) {i : Nat} (below : gridWindow i ≤ c) :
    i ≤ place c := by
  by_contra hAfter
  have hApart := gridWindow_add_step_le h.le_place (Nat.not_le.mp hAfter)
  linarith [(h.gridWindow_place_of_le exact).2]

/-- A window of the grid above that place is a step away, and so is one below it, unless it is on the far
side of the one at that place. -/
theorem nearest (rounded : b < 2) (i : Nat) :
    |gridWindow (place c) - c| ≤ |gridWindow i - c| := by
  have hStep := decadeStep_pos b
  obtain ⟨hBelow, hAbove⟩ := h.gridWindow_place_of_lt rounded
  rcases lt_trichotomy i (place c) with hBefore | rfl | hAfter
  · rcases le_or_gt (gridWindow (place c)) c with hLeft | hRight
    · have hFar : gridWindow i < (gridWindow (place c) : ℝ) := gridWindow_strictMono hBefore
      rw [abs_of_nonpos (sub_nonpos.mpr hLeft), abs_of_nonpos (sub_nonpos.mpr (hFar.le.trans hLeft))]
      linarith
    · have hStart : decadeSize * b < place c := by
        refine gridWindow_strictMono.lt_iff_lt.mp (lt_of_le_of_lt ?_ hRight)
        rw [gridWindow_start]
        exact h.le_window
      have hApart : gridWindow (place c - 1) + decadeStep b ≤ (gridWindow (place c) : ℝ) :=
        gridWindow_add_step_le (Nat.le_sub_one_of_lt hStart) (Nat.sub_one_lt_of_lt hStart)
      have hFar : gridWindow i ≤ (gridWindow (place c - 1) : ℝ) :=
        gridWindow_strictMono.monotone (Nat.le_sub_one_of_lt hBefore)
      rw [abs_of_pos (sub_pos.mpr hRight), abs_of_nonpos (by linarith)]
      linarith
  · exact le_refl _
  · have hApart := gridWindow_add_step_le h.le_place hAfter
    refine (h.abs_gridWindow_place_sub_le rounded).trans ((le_abs_self _).trans' ?_)
    linarith

/-- Less than half a step before the end of a decade, the next one begins. -/
theorem gridWindow_place_of_seam (rounded : b < 2) (seam : 10 ^ (b + 1) - decadeStep b / 2 ≤ c) :
    gridWindow (place c) = (10 : ℝ) ^ (b + 1) := by
  have hAbove := (h.gridWindow_place_of_lt rounded).2
  have hNext : (gridWindow (decadeSize * (b + 1)) : ℝ) < gridWindow (place c) + decadeStep b := by
    rw [gridWindow_start]
    linarith
  have hPlace : decadeSize * (b + 1) ≤ place c := by
    by_contra hBefore
    exact hNext.not_ge (gridWindow_add_step_le h.le_place (Nat.not_le.mp hBefore))
  rw [Nat.le_antisymm h.place_le hPlace, gridWindow_start]

end InDecade

theorem place_lt (c : ℝ) : place c < gridSize := by
  rcases decade_cases c with hBelow | ⟨b, hDecade⟩ | hAbove
  · rw [place_of_lt_one hBelow]
    decide
  · exact hDecade.place_lt
  · rw [place_of_le hAbove]
    decide

theorem val_index (c : ℝ) : (index c).val = place c :=
  Nat.min_eq_left (Nat.le_sub_one_of_lt (place_lt c))

/-- Places do not fall within a decade, and no decade reaches beyond the start of the next one. -/
theorem place_mono : Monotone (place : ℝ → Nat) := by
  intro c d h
  rcases decade_cases c with hBelow | ⟨b, hDecade⟩ | hAbove
  · rw [place_of_lt_one hBelow]
    exact Nat.zero_le _
  · rcases decade_cases d with hLow | ⟨e, hLater⟩ | hHigh
    · have hOne : (1 : ℝ) ≤ 10 ^ b := one_le_pow₀ (by norm_num)
      linarith [hDecade.le_window]
    · have hPower : (10 : ℝ) ^ b < 10 ^ (e + 1) := hDecade.le_window.trans_lt (h.trans_lt hLater.window_lt)
      have hOrder : b < e + 1 := (pow_lt_pow_iff_right₀ (by norm_num)).mp hPower
      rcases (Nat.le_of_lt_succ hOrder).lt_or_eq with hNext | rfl
      · calc place c ≤ decadeSize * (b + 1) := hDecade.place_le
          _ ≤ decadeSize * e := Nat.mul_le_mul_left _ hNext
          _ ≤ place d := hLater.le_place
      · rw [hDecade.place_eq, hLater.place_eq]
        exact Nat.add_le_add_left (Nat.sub_le_sub_right (steps_mono b h) 10) _
    · rw [place_of_le hHigh]
      exact Nat.le_sub_one_of_lt hDecade.place_lt
  · rw [place_of_le hAbove, place_of_le (hAbove.trans h)]

theorem index_mono : Monotone (index : ℝ → Fin gridSize) := fun c d h => by
  rw [Fin.le_def, val_index, val_index]
  exact place_mono h

/-- Every window has a place in the grid, and a larger window has no earlier one. Below a hundred packets
the window at that place is a nearest one of the whole grid, and just before a decade ends it is the start
of the next one. From a hundred packets on it is the last one that is not larger. Windows outside the grid
are looked up at its ends. -/
theorem index_finds_window :
    (∀ b < 7, ∀ o < 90, (gridWindow (90 * b + o) : ℝ) = 10 ^ b + o * 10 ^ ((b : ℤ) - 1)) ∧
    (∀ c : ℝ, place c < 630 ∧ (index c).val = place c ∧
      (1 ≤ Scalar.floor c → Scalar.floor c < 10 → 10 ≤ Scalar.floor (c * 10.0 + 0.5))) ∧
    Monotone (index : ℝ → Fin gridSize) ∧
    (∀ (b : Nat) (c : ℝ), 10 ^ b ≤ c → c < 10 ^ (b + 1) →
      let step : ℝ := 10 ^ ((b : ℤ) - 1)
      let found : ℝ := gridWindow (index c)
      (b < 2 → |found - c| ≤ step / 2 ∧ (∀ i : Fin gridSize, |found - c| ≤ |gridWindow i - c|) ∧
        (10 ^ (b + 1) - step / 2 ≤ c → found = 10 ^ (b + 1))) ∧
      (2 ≤ b → b < 7 → found ≤ c ∧ c < found + step ∧
        ∀ i : Fin gridSize, gridWindow i ≤ c → i ≤ index c)) ∧
    (∀ c : ℝ, c < 1 → (index c).val = 0) ∧
    ∀ c : ℝ, 10 ^ 7 ≤ c → (index c).val = 629 := by
  have hStep (b : Nat) : (10 : ℝ) ^ ((b : ℤ) - 1) = decadeStep b := by
    rw [decadeStep_eq, zpow_sub_one₀ (by norm_num), zpow_natCast, div_eq_mul_inv]
  refine ⟨?windows, fun c => ⟨place_lt c, val_index c, ?tenths⟩, index_mono, ?decades, ?below, ?above⟩
  case windows =>
    intro b _ o hOffset
    rw [hStep]
    refine (gridWindow_of_steps b hOffset.le).trans ?_
    rw [decadeStep_eq]
    ring
  case tenths =>
    intro hOne hTen
    have hDecade : InDecade 0 c :=
      ⟨by decide, by simpa using (Nat.one_le_floor_iff c).mp hOne,
        by simpa using (Nat.floor_lt' (by decide)).mp hTen⟩
    exact steps_zero c ▸ hDecade.ten_le_steps
  case decades =>
    intro b c hLow hHigh step found
    have hFound : found = gridWindow (place c) := by rw [← val_index]
    simp only [step, hStep, hFound]
    refine ⟨fun hRounded => ?_, fun hExact hLast => ?_⟩
    · have hDecade : InDecade b c := ⟨by omega, hLow, hHigh⟩
      exact ⟨hDecade.abs_gridWindow_place_sub_le hRounded, fun i => hDecade.nearest hRounded i,
        hDecade.gridWindow_place_of_seam hRounded⟩
    · have hDecade : InDecade b c := ⟨hLast, hLow, hHigh⟩
      obtain ⟨hBelow, hAbove⟩ := hDecade.gridWindow_place_of_le hExact
      refine ⟨hBelow, hAbove, fun i hWindow => ?_⟩
      rw [Fin.le_def, val_index]
      exact hDecade.le_place_of_gridWindow_le hExact hWindow
  case below =>
    intro c hBelow
    rw [val_index, place_of_lt_one hBelow]
  case above =>
    intro c hAbove
    rw [val_index, place_of_le hAbove]
    rfl

/-- Halfway between the last window of the second decade and the first one of the third, and inside the
fourth decade. -/
theorem index_of_windows_off_grid :
    ((1 ≤ Scalar.floor (9.97 : ℝ) ∧ Scalar.floor (9.97 : ℝ) < 10) ∧
      10 ≤ Scalar.floor ((9.97 : ℝ) * 10.0 + 0.5)) ∧
    ((10 : ℝ) ^ 1 ≤ 99.5 ∧ (99.5 : ℝ) < 10 ^ 2 ∧ gridWindow (index (99.5 : ℝ)) = (100 : ℝ)) ∧
    ((10 : ℝ) ^ 3 ≤ 1999 ∧ (1999 : ℝ) < 10 ^ 4 ∧
      gridWindow (index (1999 : ℝ)) ≤ (1999 : ℝ) ∧ 1999 < gridWindow (index (1999 : ℝ)) + (100 : ℝ)) ∧
    ((0.3 : ℝ) < 1 ∧ (index (0.3 : ℝ)).val = 0) ∧
    (10 : ℝ) ^ 7 ≤ 2e7 ∧ (index (2e7 : ℝ)).val = 629 := by
  obtain ⟨_, hPlaces, _, hDecades, hBelow, hAbove⟩ := index_finds_window
  have hFloor : Scalar.floor (9.97 : ℝ) = 9 := by
    change ⌊(9.97 : ℝ)⌋₊ = 9
    norm_num [Nat.floor_eq_iff]
  have hTenths := (hPlaces 9.97).2.2 (by rw [hFloor]; decide) (by rw [hFloor]; decide)
  have hSecond : (10 : ℝ) ^ 1 ≤ 99.5 ∧ (99.5 : ℝ) < 10 ^ 2 := by norm_num
  have hFourth : (10 : ℝ) ^ 3 ≤ 1999 ∧ (1999 : ℝ) < 10 ^ 4 := by norm_num
  obtain ⟨_, _, hSeam⟩ := (hDecades 1 99.5 hSecond.1 hSecond.2).1 (by decide)
  obtain ⟨hLow, hHigh, _⟩ := (hDecades 3 1999 hFourth.1 hFourth.2).2 (by decide) (by decide)
  have hHundred : gridWindow (index (99.5 : ℝ)) = (100 : ℝ) :=
    (hSeam (by norm_num)).trans (by norm_num)
  norm_num at hHigh
  refine ⟨⟨?_, hTenths⟩, ⟨hSecond.1, hSecond.2, hHundred⟩, ⟨hFourth.1, hFourth.2, hLow, hHigh⟩,
    ⟨by norm_num, hBelow 0.3 (by norm_num)⟩, by norm_num, hAbove 2e7 (by norm_num)⟩
  rw [hFloor]
  decide

end LoadFeedback.Window
