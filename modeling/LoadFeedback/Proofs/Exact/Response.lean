import LoadFeedback.Proofs.Exact.Overload

/-! The law for load factors over the real numbers, with a gain that is at most the default one. Below the
low bound the gain is a constant. With the default `k` it is the value that the formula for higher load
factors takes there, so the gain falls over the whole range, and the window with it. -/
namespace LoadFeedback

namespace Raw

variable {r : Raw ℝ} {load first second : Nat}

theorem gain_of_le_lowBound (low : load ≤ lowBound) : r.gain load = 1 / 16 := by
  rw [gain, if_pos low]
  norm_num

/-- The formula for high load factors does not exceed the constant for low ones. -/
theorem gain_le (k_pos : 0 < r.config.k) (k_le : r.config.k ≤ 0.25) (load : Nat) :
    r.gain load ≤ 1 / 16 := by
  rcases Nat.lt_or_ge lowBound load with hHigh | hLow
  · have hLoad : (8000 : ℝ) ≤ load := by exact_mod_cast hHigh.le
    have hRatio : (fullLoad : ℝ) / load ≤ fullLoad / 8000 := by gcongr
    rw [gain_of_lowBound_lt hHigh]
    calc r.config.k * (fullLoad / load - 1)
      _ ≤ r.config.k * (fullLoad / 8000 - 1) := by gcongr
      _ = r.config.k * 0.25 := by norm_num [fullLoad]
      _ ≤ 0.25 * 0.25 := by gcongr
      _ = 1 / 16 := by norm_num
  · exact (gain_of_le_lowBound hLow).le

theorem gain_anti (k_pos : 0 < r.config.k) (k_le : r.config.k ≤ 0.25) (le : first ≤ second) :
    r.gain second ≤ r.gain first := by
  rcases Nat.lt_or_ge lowBound first with hHigh | hLow
  · rcases le.lt_or_eq with hLt | rfl
    · exact (gain_lt k_pos hHigh hLt).le
    · exact le_refl _
  · rw [gain_of_le_lowBound hLow]
    exact gain_le k_pos k_le second

/-- With such a gain the base of the power is positive for every load factor of the feedback field. -/
theorem base_nonneg_of_field (k_pos : 0 < r.config.k) (k_le : r.config.k ≤ 0.25)
    (field : load ≤ 65535) : 0 ≤ 1 + r.gain load := by
  rcases Nat.lt_or_ge lowBound load with hHigh | hLow
  · exact base_nonneg k_pos (by norm_num at k_le; linarith) hHigh field
  · rw [gain_of_le_lowBound hLow]
    norm_num

theorem change_anti (k_pos : 0 < r.config.k) (k_le : r.config.k ≤ 0.25)
    (exponent_pos : 0 < r.scaling.exponent) (le : first ≤ second) (field : second ≤ 65535) :
    r.change second ≤ r.change first := by
  have hGain := gain_anti k_pos k_le le
  have hBase := base_nonneg_of_field k_pos k_le field
  have hTerm : r.multiplicativeTerm second ≤ r.multiplicativeTerm first := by
    rw [multiplicativeTerm_eq, multiplicativeTerm_eq]
    gcongr
  exact add_le_add_left hTerm _

/-- The window after an acknowledgment: at least one packet, and at most the largest window. -/
theorem window_respond (r : Raw ℝ) (load : Nat) :
    (r.respond load).window = r.bounded (max (r.window + r.change load) 1) := by
  rw [← Scalar.max_eq_max, ← WindowState.minWindow_eq_one]
  rfl

/-- A change that is not negative leaves the window at least as large as it was. -/
theorem change_neg_of_shrinks
    (within : ∀ bound, r.config.maxWindow = some bound → r.window ≤ bound)
    (shrinks : (r.respond load).window < r.window) : r.change load < 0 := by
  by_contra hChange
  have hMore : r.window ≤ max (r.window + r.change load) 1 :=
    le_max_of_le_left (le_add_of_nonneg_right (not_lt.mp hChange))
  refine shrinks.not_ge ?_
  rw [window_respond]
  unfold WindowState.bounded
  split
  · next bound hMax =>
      rw [Scalar.min_eq_min]
      exact le_min hMore (within bound hMax)
  · exact hMore

/-- A window of more than one packet gets smaller whenever the change is negative. -/
theorem shrinks_of_change_neg (one_lt : 1 < r.window) (neg : r.change load < 0) :
    (r.respond load).window < r.window := by
  have hLess : max (r.window + r.change load) 1 < r.window :=
    max_lt (add_lt_of_neg_right r.window neg) one_lt
  rw [window_respond]
  unfold WindowState.bounded
  split
  · rw [Scalar.min_eq_min]
    exact (min_le_left _ _).trans_lt hLess
  · exact hLess

theorem cuts_of_change_neg (shrinks : r.change load < 0) :
    (r.respond load).action = .decrease ∧ (r.respond load).tally.cuts = r.tally.cuts + 1 := by
  have hLess : r.change load < 0.0 := by
    norm_num
    exact shrinks
  simp [respond, hLess, Tally.count]

theorem onAck_of_isAck {p : Packet} (h : p.isData = false) :
    r.onAck p = (.ok p.feedback.value.toNat, r.respond p.feedback.value.toNat) := by
  simp [onAck, check, h]

/-- Under settings that are accepted and a `k` of at most the default one, whatever has happened to the
window: of two acknowledgments, the one with the higher load factor leaves no larger window, over all
values of the feedback field. Where an acknowledgment makes the window smaller, its action is a decrease
and is counted as a cut. -/
theorem window_falls_with_load {config : SenderConfig ℝ} (valid : config.validate = .ok ())
    (law : config.law = .raw) (k_le : config.k ≤ 0.25) (tables : WindowTables ℝ) :
    ∃ c, Controller.build config tables = .ok c ∧ ∀ events, ∃ r, c.run events = .raw r ∧
      (∀ mild severe : Packet, mild.isData = false → severe.isData = false →
        mild.feedback ≤ severe.feedback →
        (r.onAck severe).2.window ≤ (r.onAck mild).2.window) ∧
      ∀ p : Packet, p.isData = false → (r.onAck p).2.window < r.window →
        (r.onAck p).2.action = .decrease ∧ (r.onAck p).2.tally.cuts = r.tally.cuts + 1 := by
  have hPos := SenderConfig.linkInterval_pos_of_validate valid
  have hBuilt : Controller.build config tables = .ok (.start config tables) :=
    Controller.build_eq_ok_iff.mpr ⟨valid, rfl⟩
  -- The law has no use for the tables, so the bounds hold whatever these are.
  have hStandard : Controller.start config tables = .start config .standard := by
    simp only [Controller.start, law]
  have hSound := SenderConfig.sound_of_validate valid WindowTables.positive_standard.nonneg
    fun _ => True
  refine ⟨_, hBuilt, fun events => ?_⟩
  have hRun := (Controller.Compounds.start law hPos tables).run hPos events
  have hBounds : ((Controller.start config tables).run events).InBounds config .standard := by
    rw [hStandard]
    exact (Controller.InBounds.of_start hSound).run hSound keepsUnit_real events fun _ _ => trivial
  obtain ⟨r, hRaw⟩ := hRun.exists_raw
  rw [hRaw] at hRun hBounds
  have hConfig : r.config = config := hRun.config_eq
  have hExponent : 0 < r.scaling.exponent := hRun.exponent_pos
  have hK : 0 < r.config.k := hConfig ▸ (SenderConfig.accepted_of_validate valid).k_pos
  have hDefault : r.config.k ≤ 0.25 := hConfig ▸ k_le
  refine ⟨r, hRaw, fun mild severe hMild hSevere hLe => ?_, fun p hAck hShrinks => ?_⟩
  · have hField : severe.feedback.value.toNat ≤ 65535 :=
      Nat.le_of_lt_succ severe.feedback.value.toNat_lt
    rw [onAck_of_isAck hMild, onAck_of_isAck hSevere]
    exact window_respond_le (change_anti hK hDefault hExponent hLe hField)
  · rw [onAck_of_isAck hAck] at hShrinks ⊢
    exact cuts_of_change_neg (change_neg_of_shrinks hBounds.window_le hShrinks)

/-- With the default gain and a window of a hundred packets, after a round trip of one measurement
interval: the load factor just above the low bound leaves no larger window than the low bound itself,
and the largest one cuts the window. -/
theorem standard_window_falls_with_load :
    let config : SenderConfig ℝ := { SenderConfig.standard with law := .raw, initialWindow := 100 }
    let estimate := (RoundTrip.start typicalRoundTrip).update (Span.millis 200)
    let ack (load : UInt16) := (Packet.ack 1 1 40 0 0).withFeedback ⟨load⟩
    config.validate = .ok () ∧ config.law = .raw ∧ config.k ≤ 0.25 ∧
      ∃ c r, Controller.build config .standard = .ok c ∧ c.run [.measured estimate] = .raw r ∧
        (r.onAck (ack 8001)).2.window ≤ (r.onAck (ack 8000)).2.window ∧
        (r.onAck (ack 65535)).2.window < r.window ∧ (r.onAck (ack 65535)).2.action = .decrease := by
  intro config estimate ack
  have hValid : config.validate = .ok () := by
    refine SenderConfig.validate_eq_ok_iff.mpr ?_
    norm_num [config, SenderConfig.fault?, SenderConfig.standard, SenderConfig.isGain,
      SenderConfig.boundFault?, Scalar.isFinite, defaultMeasurementInterval, Span.millis]
  have hGain : config.k ≤ 0.25 := le_refl _
  obtain ⟨c, hBuilt, hRuns⟩ := window_falls_with_load hValid rfl hGain .standard
  obtain ⟨r, hRaw, hFalls, hCuts⟩ := hRuns [.measured estimate]
  have hShrinks : (r.onAck (ack 65535)).2.window < r.window := by
    obtain ⟨_, rfl⟩ := Controller.build_eq_ok_iff.mp hBuilt
    cases hRaw
    have hControl : estimate.control = Span.millis 200 := by decide
    have hExponent : ((WindowState.start config).measured estimate).scaling.exponent = 1 := by
      change Scalar.min (Scaling.intervals estimate.control (Span.millis 200) : ℝ) 2.5 = 1
      rw [hControl, Scalar.min_eq_min]
      norm_num [Scaling.intervals, Span.seconds, Span.millis, Scalar.ofNat]
    have hFactor : ((WindowState.start config).measured estimate).scaling.factor = 4 := by
      change Scaling.factorOf (Span.seconds estimate.control / Span.seconds typicalRoundTrip : ℝ) = 4
      rw [hControl]
      norm_num [Scaling.factorOf, Span.seconds, Span.millis, Scalar.ofNat, typicalRoundTrip]
    refine shrinks_of_change_neg (r := ⟨(WindowState.start config).measured estimate⟩) ?_ ?_
    · change (1 : ℝ) < 100
      norm_num
    · rw [change, multiplicativeTerm_eq, WindowState.additiveTerm, hExponent, hFactor, Real.rpow_one,
        gain_of_lowBound_lt (by decide)]
      change 1 + 0.25 * ((fullLoad : ℝ) / ((65535 : ℕ) : ℝ) - 1) - 1 + 4 * 1.0 * 1.0 / 100 < (0 : ℝ)
      norm_num [fullLoad]
  exact ⟨hValid, rfl, hGain, c, r, hBuilt, hRaw, hFalls _ _ rfl rfl (by decide), hShrinks,
    (hCuts _ rfl hShrinks).1⟩

end Raw
end LoadFeedback
