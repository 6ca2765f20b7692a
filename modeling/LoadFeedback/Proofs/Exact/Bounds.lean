import LoadFeedback.Proofs.Exact.Tables
import LoadFeedback.Proofs.Flow.Window

/-! The bounds of the window over the real numbers. There the settings that are accepted are enough for
a window to keep them. -/
namespace LoadFeedback

theorem ite_some_eq_none {β : Type} {p : Prop} [Decidable p] {x : β} {y : Option β} :
    (if p then some x else y) = none ↔ ¬p ∧ y = none := by
  split <;> simp [*]

namespace SenderConfig

variable {config : SenderConfig ℝ}

/-- What the check of the settings says over the real numbers. -/
structure Accepted (config : SenderConfig ℝ) : Prop where
  beta_pos : 0 < config.beta
  beta_lt : config.beta < 1
  k_pos : 0 < config.k
  alpha_pos : 0 < config.alpha
  weight_pos : 0 < config.weight
  one_le : 1 ≤ config.initialWindow
  initial_le : ∀ bound, config.maxWindow = some bound → config.initialWindow ≤ bound

theorem accepted_of_validate (valid : config.validate = .ok ()) : config.Accepted := by
  have hNone : config.fault? = none := by
    unfold validate at valid
    split at valid
    · cases valid
    · assumption
  simp only [fault?, ite_some_eq_none, isGain, Scalar.isFinite, Bool.true_and, Bool.not_eq_true',
    Bool.not_eq_false, Bool.and_eq_true, decide_eq_true_eq, decide_eq_false_iff_not, not_not] at hNone
  obtain ⟨_, ⟨hBetaPos, hBetaLt⟩, hK, hAlpha, hWeight, hInitial, hBound⟩ := hNone
  norm_num at hBetaPos hBetaLt hK hAlpha hWeight hInitial
  refine ⟨hBetaPos, hBetaLt, hK, hAlpha, hWeight, hInitial, fun bound hMax => ?_⟩
  rw [boundFault?, hMax] at hBound
  by_contra hAbove
  simp [hAbove] at hBound

/-- The settings that are accepted are sound for every estimate of the round trip. -/
theorem sound_of_validate (valid : config.validate = .ok ()) {tables : WindowTables ℝ}
    (nonneg : tables.Nonneg) (estimates : RoundTrip → Prop) : config.Sound tables estimates := by
  have h := accepted_of_validate valid
  have hLift {terms : Scaling ℝ} (hFactor : 0 ≤ terms.factor) (hExponent : 0 ≤ terms.exponent) :
      terms.Lifts config :=
    Scaling.lifts_of_nonneg hFactor hExponent h.alpha_pos h.weight_pos
  have hOne : (1.0 : ℝ) = 1 := by norm_num
  constructor
  case admits => exact ⟨hOne ▸ h.one_le, h.initial_le⟩
  case lowGain =>
    change 0.0 ≤ config.k * (100.0 / ((80 : ℕ) : ℝ) - 1.0)
    have hK := h.k_pos
    norm_num
    exact hK.le
  case tables => exact nonneg
  case start =>
    refine hLift ?_ (Scaling.intervals_nonneg _ _)
    norm_num [Scaling.start]
  case update =>
    intro estimate _
    refine hLift (Scaling.factorOf_nonneg ?_) ?_
    · exact div_nonneg (Span.seconds_nonneg _) (Span.seconds_nonneg _)
    · exact Scalar.le_min (Scaling.intervals_nonneg _ _) (by norm_num)
  case bound =>
    intro bound hMax
    exact ⟨hOne ▸ h.one_le.trans (h.initial_le bound hMax), le_refl _⟩
  case cut =>
    intro window hWindow bound hMax
    have hOneLe : 1 ≤ window := hOne ▸ hWindow.one_le
    calc window * config.beta ≤ window * 1 := by gcongr; exact h.beta_lt.le
      _ = window := mul_one window
      _ ≤ bound := hWindow.le_bound bound hMax

end SenderConfig

/-- Settings that are accepted keep the window between one packet and the largest window, whatever
happens to it, and so a flow never waits with nothing in flight while it has packets to send. -/
theorem Controller.window_within_bounds {config : SenderConfig ℝ} (valid : config.validate = .ok ())
    {tables : WindowTables ℝ} (positive : tables.Positive) :
    (∃ c, build config tables = .ok c ∧ ∀ events,
      1 ≤ (c.run events).window ∧
      (∀ bound, config.maxWindow = some bound → (c.run events).window ≤ bound) ∧
      1 ≤ ⌊(c.run events).window⌋₊) ∧
    ∀ id, ∃ f, Flow.build id config tables = .ok f ∧ ∀ events,
      let g := (f.history events).2
      g.inFlight = 0 → g.nextSeq < min g.limit Flow.maxSeq → g.maySend = true := by
  have hSound := SenderConfig.sound_of_validate valid positive.nonneg fun _ => True
  have hStart := InBounds.of_start hSound
  have hBuilt : build config tables = .ok (start config tables) := by rw [build, valid]; rfl
  constructor
  · refine ⟨_, hBuilt, fun events => ?_⟩
    have hAdmits := (hStart.run hSound keepsUnit_real events fun _ _ => trivial).admits
    have hOne : 1 ≤ ((start config tables).run events).window := by
      have hLaw := hAdmits.one_le
      norm_num at hLaw
      exact hLaw
    exact ⟨hOne, hAdmits.le_bound, (Nat.one_le_floor_iff _).mpr hOne⟩
  · intro id
    refine ⟨.withController id config.packetSize (start config tables), ?_, fun events => ?_⟩
    · rw [Flow.build, hBuilt]
      rfl
    · intro g hIdle hLimit
      have hWindow : g.controller.InBounds config tables :=
        Flow.inBounds_history hStart hSound keepsUnit_real events
      exact Flow.maySend_of_inFlight (keepsUnit_real.one_le_floor _ hWindow.admits.one_le) hIdle hLimit

/-- With the default settings, a window that is held to eight packets. -/
theorem standard_window_within_bounds :
    let config : SenderConfig ℝ := { SenderConfig.standard with maxWindow := some 8 }
    config.validate = .ok () ∧ WindowTables.Positive .standard ∧
      ∃ c, Controller.build config .standard = .ok c ∧
        ∀ events, 1 ≤ (c.run events).window ∧ (c.run events).window ≤ 8 := by
  intro config
  have hValid : config.validate = .ok () := by
    have hNone : config.fault? = none := by
      norm_num [config, SenderConfig.fault?, SenderConfig.standard, SenderConfig.isGain,
        SenderConfig.boundFault?, Scalar.isFinite, defaultMeasurementInterval, Span.millis]
    rw [SenderConfig.validate, hNone]
  have hPositive := WindowTables.positive_standard
  obtain ⟨⟨c, hBuilt, hBounds⟩, _⟩ := Controller.window_within_bounds hValid hPositive
  refine ⟨hValid, hPositive, c, hBuilt, fun events => ?_⟩
  obtain ⟨hOne, hBound, _⟩ := hBounds events
  exact ⟨hOne, hBound 8 rfl⟩

end LoadFeedback
