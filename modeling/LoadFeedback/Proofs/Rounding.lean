import LoadFeedback.Time

/-! What rounding to granules guarantees in any arithmetic: a span that is rounded up never gets
shorter than one granule, so a timer that is set for it lies ahead, and one that is rounded down loses
less than a granule of its nearest milliseconds. Only how much is cut off when rounding up depends on
how the arithmetic reads a fifth of a granule. -/
namespace LoadFeedback.Span

/-- How many granules a number of milliseconds comes to, where a remainder below the slack is dropped. -/
def granules (g slack : Nat) (rounding : Rounding) (ms : Nat) : Nat :=
  match rounding with
  | .down => ms / g
  | .up => if ms < g then 1 else if ms % g < slack then ms / g else ms / g + 1

section

variable {g slack ms : Nat}

theorem one_le_granules_up (positive : 0 < g) : 1 ≤ granules g slack .up ms := by
  unfold granules
  dsimp only
  split
  · exact Nat.le_refl 1
  · next hLarge =>
      have hWhole : 1 ≤ ms / g := Nat.div_pos (Nat.le_of_not_lt hLarge) positive
      split
      · exact hWhole
      · exact Nat.le_add_left 1 _

theorem granules_mul_le (rounding : Rounding) : granules g slack rounding ms * g ≤ ms + g := by
  have hWhole : ms / g * g ≤ ms := Nat.div_mul_le_self ms g
  cases rounding with
  | down => exact Nat.le_add_right_of_le hWhole
  | up =>
      unfold granules
      dsimp only
      split
      · rw [Nat.one_mul]
        exact Nat.le_add_left g ms
      · split
        · exact Nat.le_add_right_of_le hWhole
        · rw [Nat.succ_mul]
          exact Nat.add_le_add_right hWhole g

/-- With a slack of no more than a fifth, less than a fifth of a granule is cut off. -/
theorem five_mul_lt_granules_up (positive : 0 < g) (fifth : 5 * slack ≤ g) :
    5 * ms < 5 * (granules g slack .up ms * g) + g := by
  have hDivMod : ms / g * g + ms % g = ms := Nat.div_add_mod' ms g
  have hRest : ms % g < g := Nat.mod_lt ms positive
  unfold granules
  dsimp only
  split
  · omega
  · split
    · omega
    · rw [Nat.succ_mul (ms / g)]
      omega

/-- Between two numbers of milliseconds with the same whole granules the remainder decides; otherwise
the smaller one comes to at most one granule more than its whole ones. -/
theorem granules_mono (positive : 0 < g) (rounding : Rounding) {more : Nat} (h : ms ≤ more) :
    granules g slack rounding ms ≤ granules g slack rounding more := by
  have hWhole : ms / g ≤ more / g := Nat.div_le_div_right h
  cases rounding with
  | down => exact hWhole
  | up =>
      rcases Nat.lt_or_ge ms g with hShort | hLong
      · have hOne : granules g slack .up ms = 1 := if_pos hShort
        rw [hOne]
        exact one_le_granules_up positive
      · unfold granules
        dsimp only
        rw [if_neg (Nat.not_lt.mpr hLong), if_neg (Nat.not_lt.mpr (Nat.le_trans hLong h))]
        rcases Nat.eq_or_lt_of_le hWhole with hSame | hLess
        · have hRest : ms % g ≤ more % g := by
            have hMs := Nat.div_add_mod ms g
            have hMore := Nat.div_add_mod more g
            rw [hSame] at hMs
            omega
          split <;> split <;> omega
        · split <;> split <;> omega

end

variable (α : Type) [Scalar α]

theorem granuleMillis_pos (granule : Span) : 0 < granuleMillis granule :=
  Nat.lt_of_lt_of_le Nat.zero_lt_one (Nat.le_max_right _ 1)

theorem roundTo_eq (granule : Span) (rounding : Rounding) (s : Span) :
    roundTo α granule rounding s =
      millis (granules (granuleMillis granule) (slackMillis α granule) rounding (nearestMillis α s) *
        granuleMillis granule) := by
  cases rounding with
  | down => rfl
  | up =>
      unfold roundTo granules
      dsimp only
      split
      · next hShort => rw [Nat.div_eq_of_lt hShort]
      · split <;> rfl

/-- Rounding up gives one granule at least. The nearest millisecond may be anything here. -/
theorem granule_le_roundTo_up (granule s : Span) :
    millis (granuleMillis granule) ≤ roundTo α granule .up s := by
  rw [roundTo_eq]
  exact Nat.mul_le_mul_right 1000000
    (Nat.le_mul_of_pos_left _ (one_le_granules_up (granuleMillis_pos granule)))

theorem roundTo_up_pos (granule s : Span) : 0 < roundTo α granule .up s :=
  Nat.lt_of_lt_of_le (Nat.mul_pos (granuleMillis_pos granule) (by decide))
    (granule_le_roundTo_up α granule s)

theorem granule_dvd_roundTo (granule : Span) (rounding : Rounding) (s : Span) :
    millis (granuleMillis granule) ∣ roundTo α granule rounding s :=
  Nat.mul_dvd_mul_right (Nat.dvd_mul_left _ _) 1000000

theorem roundTo_down_le (granule s : Span) :
    roundTo α granule .down s ≤ millis (nearestMillis α s) :=
  Nat.mul_le_mul_right 1000000 (Nat.div_mul_le_self _ _)

theorem lt_roundTo_down_add (granule s : Span) :
    millis (nearestMillis α s) <
      roundTo α granule .down s + millis (granuleMillis granule) := by
  have hLess := Nat.lt_div_mul_add (a := nearestMillis α s) (granuleMillis_pos granule)
  simp only [roundTo, millis, Nat.add_zero, ← Nat.add_mul]
  exact Nat.mul_lt_mul_of_pos_right hLess (by decide)

/-- Where a machine word has room for one granule more than the milliseconds of a span, it holds those of
the multiple. -/
theorem roundTo_lt_millis_size {granule s : Span}
    (room : nearestMillis α s + granuleMillis granule < UInt64.size) (rounding : Rounding) :
    roundTo α granule rounding s < millis UInt64.size := by
  rw [roundTo_eq]
  exact Nat.mul_lt_mul_of_pos_right (Nat.lt_of_le_of_lt (granules_mul_le rounding) room) (by decide)

/-- The nearest number of milliseconds is within half a millisecond of the span. -/
def ReadsMillis (s : Span) : Prop :=
  millis (nearestMillis α s) ≤ s + 500000 ∧ s ≤ millis (nearestMillis α s) + 500000

end LoadFeedback.Span
