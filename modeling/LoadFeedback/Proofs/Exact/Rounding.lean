import LoadFeedback.Proofs.Binary64.Accuracy
import LoadFeedback.Proofs.Exact.Arithmetic
import LoadFeedback.Proofs.Rounding

/-! Spans that are moved to multiples of a granule. Down loses less than a granule; up gives one granule
at least, adds one at most, and cuts off less than a fifth of one. Neither direction changes the order. -/
namespace LoadFeedback.Span

/-- In exact arithmetic every span is read to its nearest millisecond, and halfway to the later one. -/
theorem nearestMillis_exact (s : Nat) : nearestMillis ℝ s = (s + 500000) / 1000000 := by
  change ⌊(seconds s : ℝ) * 1000.0 + 1 / 2⌋₊ = _
  have hQuotient : (s / 10 ^ 9 * 1000.0 + 1 / 2 : ℝ) = ((s + 500000 : ℕ) : ℝ) / (1000000 : ℕ) := by
    push_cast
    norm_num
    ring
  rw [seconds_exact, hQuotient, Nat.floor_div_eq_div]

theorem readsMillis_exact (s : Nat) : ReadsMillis ℝ s := by
  rw [ReadsMillis, nearestMillis_exact]
  change (s + 500000) / 1000000 * 1000000 ≤ s + 500000 ∧
    s ≤ (s + 500000) / 1000000 * 1000000 + 500000
  omega

theorem slackMillis_exact (granule : Span) : slackMillis ℝ granule = granuleMillis granule / 5 := by
  change ⌊(granuleMillis granule : ℝ) * 0.2⌋₊ = _
  have hQuotient : (granuleMillis granule * 0.2 : ℝ) = (granuleMillis granule : ℝ) / (5 : ℕ) := by
    push_cast
    norm_num
    ring
  rw [hQuotient, Nat.floor_div_eq_div]

/-- Where a fifth of the granule is not read as more, a span that is moved to a multiple of the granule
stays close to its nearest milliseconds on both sides, and longer ones stay longer. Its milliseconds fit a
machine word that has room for one granule more than the nearest ones. Doubles read a fifth so below a
granule of thousands of years. They read spans of days to their nearest millisecond, and exact arithmetic
reads all spans and all fifths. -/
theorem roundTo_respects_granule :
    (∀ (α : Type) [Scalar α] (granule : Span), 5 * slackMillis α granule ≤ granuleMillis granule →
      ∀ s : Span,
        let g := granuleMillis granule
        let ms := nearestMillis α s
        (∃ r, roundTo α granule .down s = millis r ∧ g ∣ r ∧ r ≤ ms ∧ ms < r + g) ∧
        (∃ r, roundTo α granule .up s = millis r ∧ g ∣ r ∧ g ≤ r ∧ r ≤ ms + g ∧
          5 * ((ms : ℤ) - r) < g) ∧
        (ms + g < UInt64.size → ∀ rounding, roundTo α granule rounding s < millis UInt64.size) ∧
        ∀ rounding (longer : Span), ms ≤ nearestMillis α longer →
          roundTo α granule rounding s ≤ roundTo α granule rounding longer) ∧
    ((∀ s, nearestMillis ℝ s = (s + 500000) / 1000000) ∧
      ∀ granule, slackMillis ℝ granule = granuleMillis granule / 5) ∧
    (∀ s < 2 ^ 48, ReadsMillis Float s) ∧
      ∀ granule, granuleMillis granule < 2 ^ 48 →
        5 * slackMillis Float granule ≤ granuleMillis granule := by
  refine ⟨fun α _ granule fifth s => ?_, ⟨nearestMillis_exact, slackMillis_exact⟩,
    fun _ => Binary64.readsMillis, fun _ => Binary64.five_mul_slackMillis_le⟩
  intro g ms
  have hPos : 0 < g := granuleMillis_pos granule
  refine ⟨?_, ?_, roundTo_lt_millis_size α, fun rounding longer hLonger => ?_⟩
  · refine ⟨_, roundTo_eq α granule .down s, Nat.dvd_mul_left _ _, Nat.div_mul_le_self ms g, ?_⟩
    exact Nat.lt_div_mul_add hPos
  · have hCut : 5 * ms < 5 * (granules g (slackMillis α granule) .up ms * g) + g :=
      five_mul_lt_granules_up hPos fifth
    refine ⟨_, roundTo_eq α granule .up s, Nat.dvd_mul_left _ _,
      Nat.le_mul_of_pos_left g (one_le_granules_up hPos), granules_mul_le .up, ?_⟩
    generalize granules g (slackMillis α granule) .up ms * g = r at hCut ⊢
    omega
  · rw [roundTo_eq, roundTo_eq]
    exact Nat.mul_le_mul_right 1000000 (Nat.mul_le_mul_right g (granules_mono hPos rounding hLonger))

/-- A remainder of one millisecond is cut off, and one of two milliseconds is rounded up. -/
theorem roundTo_timerGranule :
    5 * slackMillis Float timerGranule ≤ granuleMillis timerGranule ∧
      5 * slackMillis ℝ (millis 7) ≤ granuleMillis (millis 7) ∧
      nearestMillis Float (millis 201) ≤ nearestMillis Float (millis 202) ∧
      roundTo Float timerGranule .up (millis 201) = millis 200 ∧
      roundTo Float timerGranule .up (millis 202) = millis 210 ∧
      roundTo Float timerGranule .up (millis 201) ≤ roundTo Float timerGranule .up (millis 202) ∧
      nearestMillis Float (millis 201) + granuleMillis timerGranule < UInt64.size ∧
      roundTo Float timerGranule .up (millis 201) < millis UInt64.size ∧
      ∃ r, roundTo ℝ (millis 7) .up (secs 31536000) = millis r ∧ 7 ∣ r := by
  obtain ⟨hGranules, ⟨_, hExact⟩, _, hDouble⟩ := roundTo_respects_granule
  have hFifth := hDouble timerGranule (by decide)
  have hSeventh : 5 * slackMillis ℝ (millis 7) ≤ granuleMillis (millis 7) := by
    rw [hExact]
    decide
  have hOrder : nearestMillis Float (millis 201) ≤ nearestMillis Float (millis 202) := by
    decide +kernel
  have hRoom : nearestMillis Float (millis 201) + granuleMillis timerGranule < UInt64.size := by
    decide +kernel
  obtain ⟨_, _, hFits, hMono⟩ := hGranules Float timerGranule hFifth (millis 201)
  obtain ⟨_, ⟨r, hUp, hMultiple, _⟩, _⟩ := hGranules ℝ (millis 7) hSeventh (secs 31536000)
  exact ⟨hFifth, hSeventh, hOrder, by decide +kernel, by decide +kernel, hMono .up _ hOrder, hRoom,
    hFits hRoom .up, r, hUp, hMultiple⟩

end LoadFeedback.Span
