import LoadFeedback.Proofs.Exact.Bounds

/-! The law for load factors over the real numbers. Its multiplicative term compounds `1 + gain`, and the
gain falls as the load factor rises. The term falls with it while `1 + gain` is not negative, or where
the exponent is odd. A large `k` makes `1 + gain` negative under overload, and then a power may be
large where it should be small. -/
namespace LoadFeedback

/-- Raising numbers from this one on to the power keeps their order. -/
def PowerRises (exponent base : ℝ) : Prop :=
  0 ≤ base ∨ ∃ n : ℕ, exponent = ((2 * n + 1 : ℕ) : ℝ)

theorem PowerRises.rpow_lt {exponent x y : ℝ} (h : PowerRises exponent x) (pos : 0 < exponent)
    (lt : x < y) : x ^ exponent < y ^ exponent := by
  rcases h with hBase | ⟨n, rfl⟩
  · exact Real.rpow_lt_rpow hBase lt pos
  · rw [Real.rpow_natCast, Real.rpow_natCast]
    exact (odd_two_mul_add_one n).strictMono_pow lt

namespace Raw

variable {r : Raw ℝ} {load first second : Nat}

theorem gain_of_lowBound_lt (high : lowBound < load) :
    r.gain load = r.config.k * (fullLoad / load - 1) := by
  have hOne : (1.0 : ℝ) = 1 := by norm_num
  rw [gain, if_neg (Nat.not_le_of_lt high), hOne]
  rfl

theorem gain_lt (k_pos : 0 < r.config.k) (high : lowBound < first) (lt : first < second) :
    r.gain second < r.gain first := by
  have hFirst : (0 : ℝ) < first := by exact_mod_cast Nat.zero_lt_of_lt high
  have hLt : (first : ℝ) < second := by exact_mod_cast lt
  have hFull : (0 : ℝ) < fullLoad := by norm_num [fullLoad]
  rw [gain_of_lowBound_lt high, gain_of_lowBound_lt (Nat.lt_trans high lt)]
  gcongr

theorem gain_fullLoad : r.gain fullLoad = 0 := by
  rw [gain_of_lowBound_lt (by decide)]
  norm_num [fullLoad]

theorem multiplicativeTerm_eq (r : Raw ℝ) (load : Nat) :
    r.multiplicativeTerm load = (1 + r.gain load) ^ r.scaling.exponent - 1 := by
  have hOne : (1.0 : ℝ) = 1 := by norm_num
  rw [multiplicativeTerm, hOne]
  rfl

theorem multiplicativeTerm_fullLoad : r.multiplicativeTerm fullLoad = 0 := by
  rw [multiplicativeTerm_eq, gain_fullLoad, add_zero, Real.one_rpow, sub_self]

/-- A higher load factor gives a smaller term, if powers rise from its base on. -/
theorem multiplicativeTerm_lt (k_pos : 0 < r.config.k) (exponent_pos : 0 < r.scaling.exponent)
    (high : lowBound < first) (lt : first < second)
    (rises : PowerRises r.scaling.exponent (1 + r.gain second)) :
    r.multiplicativeTerm second < r.multiplicativeTerm first := by
  have hBase : 1 + r.gain second < 1 + r.gain first := by
    have hGain := gain_lt k_pos high lt
    linarith
  rw [multiplicativeTerm_eq, multiplicativeTerm_eq]
  exact sub_lt_sub_right (rises.rpow_lt exponent_pos hBase) 1

/-- Below full load the base is above one, so powers rise there. -/
theorem multiplicativeTerm_pos (k_pos : 0 < r.config.k) (exponent_pos : 0 < r.scaling.exponent)
    (high : lowBound < load) (below : load < fullLoad) : 0 < r.multiplicativeTerm load := by
  have hFull : PowerRises r.scaling.exponent (1 + r.gain fullLoad) := by
    rw [gain_fullLoad]
    exact Or.inl (by norm_num)
  rw [← multiplicativeTerm_fullLoad (r := r)]
  exact multiplicativeTerm_lt k_pos exponent_pos high below hFull

theorem multiplicativeTerm_neg (k_pos : 0 < r.config.k) (exponent_pos : 0 < r.scaling.exponent)
    (above : fullLoad < load) (rises : PowerRises r.scaling.exponent (1 + r.gain load)) :
    r.multiplicativeTerm load < 0 := by
  rw [← multiplicativeTerm_fullLoad (r := r)]
  exact multiplicativeTerm_lt k_pos exponent_pos (by decide) above rises

/-- A window that changes by less is no larger afterwards, whatever bounds it is held to. -/
theorem window_respond_le (less : r.change second ≤ r.change first) :
    (r.respond second).window ≤ (r.respond first).window := by
  have hMax : Scalar.max (r.window + r.change second) WindowState.minWindow ≤
      Scalar.max (r.window + r.change first) WindowState.minWindow := by
    simp only [Scalar.max]
    split_ifs <;> linarith
  change r.bounded _ ≤ r.bounded _
  unfold WindowState.bounded
  split
  · simp only [Scalar.min]
    split_ifs <;> linarith
  · exact hMax

/-- A gain of at most `65535 / 55535` leaves `1 + gain` positive or zero for every load factor that the
feedback field can hold. -/
theorem base_nonneg (k_pos : 0 < r.config.k) (small : r.config.k * 55535 ≤ 65535)
    (high : lowBound < load) (field : load ≤ 65535) : 0 ≤ 1 + r.gain load := by
  have hLoad : (0 : ℝ) < load := by exact_mod_cast Nat.zero_lt_of_lt high
  have hField : (load : ℝ) ≤ 65535 := by exact_mod_cast field
  have hRatio : (fullLoad : ℝ) / 65535 ≤ fullLoad / load := by
    gcongr
  have hGain : r.config.k * ((fullLoad : ℝ) / 65535 - 1) ≤ r.config.k * (fullLoad / load - 1) := by
    gcongr
  rw [gain_of_lowBound_lt high]
  norm_num [fullLoad] at hGain ⊢
  linarith

/-- From the base of the load factor on, the sign of the term says on which side of full load it is. -/
theorem sign_multiplicativeTerm (k_pos : 0 < r.config.k) (exponent_pos : 0 < r.scaling.exponent)
    (high : lowBound < load) (rises : PowerRises r.scaling.exponent (1 + r.gain load)) :
    (0 < r.multiplicativeTerm load ↔ load < fullLoad) ∧
    (r.multiplicativeTerm load = 0 ↔ load = fullLoad) ∧
    (r.multiplicativeTerm load < 0 ↔ fullLoad < load) := by
  rcases Nat.lt_trichotomy load fullLoad with hBelow | rfl | hAbove
  · have hPos := multiplicativeTerm_pos k_pos exponent_pos high hBelow
    exact ⟨iff_of_true hPos hBelow, iff_of_false hPos.ne' hBelow.ne,
      iff_of_false hPos.not_gt hBelow.not_gt⟩
  · have hZero := multiplicativeTerm_fullLoad (r := r)
    exact ⟨iff_of_false hZero.not_gt (lt_irrefl _), iff_of_true hZero rfl,
      iff_of_false hZero.not_lt (lt_irrefl _)⟩
  · have hNeg := multiplicativeTerm_neg k_pos exponent_pos hAbove rises
    exact ⟨iff_of_false hNeg.not_gt hAbove.not_gt, iff_of_false hNeg.ne hAbove.ne',
      iff_of_true hNeg hAbove⟩

end Raw

namespace Scaling

/-- Every round trip takes some part of a measurement interval. -/
theorem exponent_start_pos {linkInterval : Span} (h : 0 < linkInterval) :
    0 < (start linkInterval : Scaling ℝ).exponent :=
  div_pos (Span.seconds_pos (by decide)) (Span.seconds_pos h)

theorem exponent_update_pos {terms : Scaling ℝ} (h : 0 < terms.linkInterval) (estimate : RoundTrip) :
    0 < (terms.update estimate).exponent := by
  have hControl : 0 < estimate.control :=
    Nat.lt_of_lt_of_le (by decide : 0 < timerGranule) (Nat.le_max_right _ _)
  have hPart : 0 < (intervals estimate.control terms.linkInterval : ℝ) :=
    div_pos (Span.seconds_pos hControl) (Span.seconds_pos h)
  change 0 < Scalar.min (intervals estimate.control terms.linkInterval : ℝ) 2.5
  unfold Scalar.min
  split_ifs
  · exact hPart
  · norm_num
  · exact hPart

end Scaling

namespace Controller

variable {c d : Controller ℝ} {config : SenderConfig ℝ}

/-- A window under the law for load factors, with its settings and a positive exponent. -/
structure Compounds (c : Controller ℝ) (config : SenderConfig ℝ) : Prop where
  gains_eq : c.gains? = none
  config_eq : c.state.config = config
  interval_eq : c.state.scaling.linkInterval = config.linkInterval
  exponent_pos : 0 < c.state.scaling.exponent

namespace Compounds

theorem congr (h : c.Compounds config) (alike : c.Alike d) : d.Compounds config where
  gains_eq := alike.gains_eq.trans h.gains_eq
  config_eq := alike.config_eq.trans h.config_eq
  interval_eq := alike.scaling_eq ▸ h.interval_eq
  exponent_pos := alike.scaling_eq ▸ h.exponent_pos

theorem start (law : config.law = .raw) (pos : 0 < config.linkInterval) (tables : WindowTables ℝ) :
    (start config tables).Compounds config := by
  rw [Controller.start, law]
  exact ⟨rfl, rfl, rfl, Scaling.exponent_start_pos pos⟩

theorem exists_raw (h : c.Compounds config) : ∃ r, c = .raw r := by
  cases c with
  | coded c => cases h.gains_eq
  | raw r => exact ⟨r, rfl⟩

theorem after (h : c.Compounds config) (pos : 0 < config.linkInterval) (event : WindowEvent) :
    (c.after event).Compounds config := by
  have hInterval : 0 < c.state.scaling.linkInterval := h.interval_eq ▸ pos
  obtain ⟨r, rfl⟩ := h.exists_raw
  cases event with
  | ack p now =>
      simp only [Controller.after, Controller.onAck, Raw.onAck, Prod.map_snd]
      split
      · exact ⟨rfl, h.config_eq, h.interval_eq, h.exponent_pos⟩
      · exact h
  | measured estimate =>
      exact ⟨rfl, h.config_eq, h.interval_eq, Scaling.exponent_update_pos hInterval estimate⟩
  | reset => exact ⟨rfl, h.config_eq, h.interval_eq, Scaling.exponent_start_pos hInterval⟩
  | sent paced => exact h.congr (alike_sent _ paced)
  | timer timer now => exact h.congr (alike_onTimer _ timer now)
  | timeout now => exact h.congr (alike_onTimeout _ now)
  | pace now => exact h.congr (alike_pace _ now)
  | close => exact h.congr (alike_close _)

theorem run (h : c.Compounds config) (pos : 0 < config.linkInterval) (events : List WindowEvent) :
    (c.run events).Compounds config := by
  induction events generalizing c with
  | nil => exact h
  | cons event rest ih => exact ih (h.after pos event)

end Compounds
end Controller

namespace SenderConfig

theorem linkInterval_pos_of_validate {config : SenderConfig ℝ} (valid : config.validate = .ok ()) :
    0 < config.linkInterval := by
  refine Nat.pos_of_ne_zero fun hZero => ?_
  have hFault : config.fault? = some .zeroLinkInterval := if_pos hZero
  cases (validate_eq_ok_iff.mp valid).symm.trans hFault

/-- Either law is accepted with any positive `k`. -/
theorem validate_standard (law : ControlLaw) {k : ℝ} (pos : 0 < k) :
    { (standard : SenderConfig ℝ) with law := law, k := k }.validate = .ok () := by
  refine validate_eq_ok_iff.mpr ?_
  norm_num [fault?, standard, isGain, boundFault?, Scalar.isFinite, defaultMeasurementInterval,
    Span.millis, pos]

end SenderConfig

namespace Raw

/-- Under settings that are accepted, whatever has happened to the window, the multiplicative term for a
load factor above the low bound is positive below full load, zero at full load and negative above it, and
a higher load factor gives a smaller term, a smaller change and no larger window. For the higher one of
the two, `1 + gain` must not be negative, or the exponent must be odd; with a `k` of at most
`65535 / 55535` this is so for all load factors that the feedback field can hold. -/
theorem change_falls_with_load {config : SenderConfig ℝ} (valid : config.validate = .ok ())
    (law : config.law = .raw) (tables : WindowTables ℝ) :
    ∃ c, Controller.build config tables = .ok c ∧ ∀ events, ∃ r, c.run events = .raw r ∧
      0 < r.scaling.exponent ∧
      (∀ load, lowBound < load → PowerRises r.scaling.exponent (1 + r.gain load) →
        (0 < r.multiplicativeTerm load ↔ load < fullLoad) ∧
        (r.multiplicativeTerm load = 0 ↔ load = fullLoad) ∧
        (r.multiplicativeTerm load < 0 ↔ fullLoad < load)) ∧
      (∀ first second, lowBound < first → first < second →
        PowerRises r.scaling.exponent (1 + r.gain second) →
        r.multiplicativeTerm second < r.multiplicativeTerm first ∧
        r.change second < r.change first ∧
        (r.respond second).window ≤ (r.respond first).window) ∧
      (config.k * 55535 ≤ 65535 → ∀ load, lowBound < load → load ≤ 65535 →
        PowerRises r.scaling.exponent (1 + r.gain load)) := by
  have hPos := SenderConfig.linkInterval_pos_of_validate valid
  have hBuilt : Controller.build config tables = .ok (.start config tables) :=
    Controller.build_eq_ok_iff.mpr ⟨valid, rfl⟩
  refine ⟨_, hBuilt, fun events => ?_⟩
  have hRun := (Controller.Compounds.start law hPos tables).run hPos events
  obtain ⟨r, hRaw⟩ := hRun.exists_raw
  rw [hRaw] at hRun
  have hConfig : r.config = config := hRun.config_eq
  have hExponent : 0 < r.scaling.exponent := hRun.exponent_pos
  have hK : 0 < r.config.k := hConfig ▸ (SenderConfig.accepted_of_validate valid).k_pos
  refine ⟨r, hRaw, hExponent, fun load hHigh hRises =>
    sign_multiplicativeTerm hK hExponent hHigh hRises, fun first second hHigh hLt hRises => ?_,
    fun hSmall load hHigh hField => Or.inl (base_nonneg hK (hConfig ▸ hSmall) hHigh hField)⟩
  have hTerm := multiplicativeTerm_lt hK hExponent hHigh hLt hRises
  have hChange : r.change second < r.change first := add_lt_add_left hTerm _
  exact ⟨hTerm, hChange, window_respond_le hChange.le⟩

/-- With the default gain, and after a round trip of four hundred milliseconds was measured, the largest
load factor shrinks the window. -/
theorem standard_change_falls_with_load :
    let config : SenderConfig ℝ := { SenderConfig.standard with law := .raw }
    let estimate := (RoundTrip.start typicalRoundTrip).update (Span.millis 400)
    config.validate = .ok () ∧ config.law = .raw ∧
      ∃ c r, Controller.build config .standard = .ok c ∧ c.run [.measured estimate] = .raw r ∧
        r.multiplicativeTerm 65535 < 0 ∧ r.change 65535 < r.change 10000 := by
  intro config estimate
  have hValid : config.validate = .ok () :=
    SenderConfig.validate_standard .raw (by norm_num [SenderConfig.standard])
  obtain ⟨c, hBuilt, hRuns⟩ := change_falls_with_load hValid rfl .standard
  obtain ⟨r, hRaw, _, hSign, hFalls, hSmall⟩ := hRuns [.measured estimate]
  have hRises := hSmall (by norm_num [config, SenderConfig.standard]) 65535 (by decide) (le_refl _)
  have hNeg := (hSign 65535 (by decide) hRises).2.2.mpr (by decide)
  have hLess := (hFalls 10000 65535 (by decide) (by decide) hRises).2.1
  exact ⟨hValid, rfl, c, r, hBuilt, hRaw, hNeg, hLess⟩

/-- With a `k` of three, and twice a measurement interval as the round trip, the largest load factor makes
`1 + gain` so negative that its square is above one: the term is positive, and larger than the term just
above full load. -/
theorem severe_overload_grows_window :
    let config : SenderConfig ℝ := { SenderConfig.standard with law := .raw, k := 3 }
    let estimate := (RoundTrip.start typicalRoundTrip).update (Span.millis 400)
    config.validate = .ok () ∧
      ∃ c r, Controller.build config .standard = .ok c ∧ c.run [.measured estimate] = .raw r ∧
        r.scaling.exponent = 2 ∧ 0 < r.multiplicativeTerm 65535 ∧
        r.multiplicativeTerm 10001 < 0 ∧ r.change 10001 < r.change 65535 := by
  intro config estimate
  have hValid : config.validate = .ok () := SenderConfig.validate_standard .raw (by norm_num)
  have hBuilt : Controller.build config .standard = .ok (.start config .standard) :=
    Controller.build_eq_ok_iff.mpr ⟨hValid, rfl⟩
  let r : Raw ℝ := ⟨(WindowState.start config).measured estimate⟩
  have hExponent : r.scaling.exponent = 2 := by
    have hControl : estimate.control = Span.millis 400 := by decide
    change Scalar.min (Scaling.intervals estimate.control (Span.millis 200) : ℝ) 2.5 = 2
    rw [hControl]
    norm_num [Scalar.min, Scaling.intervals, Span.seconds, Span.millis, Scalar.ofNat]
  have hTerm (load : Nat) (hHigh : lowBound < load) :
      r.multiplicativeTerm load = (1 + 3 * ((fullLoad : ℝ) / load - 1)) ^ 2 - 1 := by
    rw [multiplicativeTerm_eq, hExponent, gain_of_lowBound_lt hHigh, Real.rpow_two]
    rfl
  have hSevere : 0 < r.multiplicativeTerm 65535 := by
    rw [hTerm _ (by decide)]
    norm_num [fullLoad]
  have hMild : r.multiplicativeTerm 10001 < 0 := by
    rw [hTerm _ (by decide)]
    norm_num [fullLoad]
  exact ⟨hValid, _, r, hBuilt, rfl, hExponent, hSevere, hMild,
    add_lt_add_left (hMild.trans hSevere) _⟩

end Raw
end LoadFeedback
