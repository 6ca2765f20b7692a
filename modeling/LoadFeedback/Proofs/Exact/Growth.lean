import LoadFeedback.Proofs.Exact.Overload
import LoadFeedback.Proofs.Sender.Spacing
import LoadFeedback.Proofs.Sender.Terms

/-! The law for codes over the real numbers. With settings that are accepted and tables that are positive,
both kinds of increase change the window by more than zero, and only the largest window holds it. So
nothing but a decrease makes a window smaller, unless it starts anew. -/
namespace LoadFeedback

namespace Scaling

/-- Terms that let a window grow. -/
structure Positive (terms : Scaling ℝ) : Prop where
  factor : 0 < terms.factor
  exponent : 0 < terms.exponent

theorem factorOf_pos {ratio : ℝ} (h : 0 < ratio) : 0 < factorOf ratio := by
  unfold factorOf
  split
  · norm_num
    exact h
  · split
    · exact mul_pos h h
    · next hAbove =>
        norm_num at hAbove ⊢
        linarith

theorem Derived.positive {terms : Scaling ℝ} {linkInterval : Span} (h : terms.Derived linkInterval)
    (pos : 0 < linkInterval) : terms.Positive := by
  rcases h with rfl | ⟨estimate, rfl⟩
  · exact ⟨by norm_num [start], exponent_start_pos pos⟩
  · have hControl : 0 < estimate.control :=
      Nat.lt_of_lt_of_le (by decide : 0 < timerGranule) (Nat.le_max_right _ _)
    have hRatio : 0 < (Span.seconds estimate.control / Span.seconds typicalRoundTrip : ℝ) :=
      div_pos (Span.seconds_pos hControl) (Span.seconds_pos (by decide))
    have hLink : 0 < (start linkInterval : Scaling ℝ).linkInterval := pos
    exact ⟨factorOf_pos hRatio, exponent_update_pos hLink estimate⟩

end Scaling

/-- A window that grows is larger afterwards, unless it is the largest one already. -/
theorem WindowState.window_grow_of_pos {s : WindowState ℝ} {change : ℝ} (pos : 0 < change)
    (within : ∀ bound, s.config.maxWindow = some bound → s.window ≤ bound) :
    s.window < (s.grow change).window ∨
      s.config.maxWindow = some s.window ∧ (s.grow change).window = s.window := by
  have hMore : s.window < s.window + change := lt_add_of_pos_right s.window pos
  unfold grow bounded
  cases hMax : s.config.maxWindow with
  | none => exact Or.inl hMore
  | some bound =>
      simp only [Scalar.min_eq_min]
      rcases (within bound hMax).lt_or_eq with hBelow | rfl
      · exact Or.inl (lt_min hMore hBelow)
      · exact Or.inr ⟨rfl, min_eq_right hMore.le⟩

namespace Coded

/-- A window within its bounds, with the gains of the settings and with the terms of some round trip. -/
structure Lawful (c : Coded ℝ) (config : SenderConfig ℝ) (tables : WindowTables ℝ) : Prop where
  bounds : (Controller.coded c).InBounds config tables
  terms : c.scaling.Derived config.linkInterval

variable {c : Coded ℝ} {config : SenderConfig ℝ} {tables : WindowTables ℝ} {code : LoadCode}
  {now : Instant}

theorem window_respond_of_freeze (hAction : c.choose code = .freeze) :
    (c.respond code now).window = c.window := by
  simp [respond, hAction, act]

namespace Lawful

theorem start (valid : config.validate = .ok ()) (positive : tables.Positive)
    (law : config.law = .coded) : (start config tables).Lawful config tables := by
  have hCoded : Controller.start config tables = .coded (.start config tables) := by
    rw [Controller.start, law]
  have hSound := SenderConfig.sound_of_validate valid positive.nonneg fun _ => True
  have hTerms := Controller.derived_start config tables
  rw [hCoded] at hTerms
  exact ⟨hCoded ▸ .of_start hSound, hTerms⟩

theorem after (h : c.Lawful config tables) (valid : config.validate = .ok ())
    (positive : tables.Positive) (event : WindowEvent) : (c.after event).Lawful config tables := by
  have hSound := SenderConfig.sound_of_validate valid positive.nonneg fun _ => True
  have hBounds := h.bounds.after hSound keepsUnit_real event fun _ _ => trivial
  have hTerms := Controller.derived_after (c := .coded c) h.terms event
  rw [Controller.after_coded] at hBounds hTerms
  exact ⟨hBounds, hTerms⟩

theorem run (h : c.Lawful config tables) (valid : config.validate = .ok ())
    (positive : tables.Positive) (events : List WindowEvent) : (c.run events).Lawful config tables :=
  run_keeps (P := fun d => d.Lawful config tables)
    (fun _ event hStep => hStep.after valid positive event) events c h

theorem multiplication_pos (h : c.Lawful config tables) (valid : config.validate = .ok ())
    (positive : tables.Positive) : 0 < c.multiplication := by
  have hGains := h.bounds.gains_eq _ rfl
  have hLow : c.lowGain = config.lowGain := congrArg Prod.fst hGains
  have hTables : c.tables = tables := congrArg Prod.snd hGains
  have hLowPos : 0 < config.lowGain := by
    change 0 < config.k * (100.0 / ((80 : ℕ) : ℝ) - 1.0)
    have hK := (SenderConfig.accepted_of_validate valid).k_pos
    norm_num
    exact hK
  have hGain : 0 < Scalar.min c.lowGain (c.tables.increaseAt c.window) := by
    rw [Scalar.min_eq_min, hLow, hTables]
    exact lt_min hLowPos (positive.increase _)
  have hExponent := (h.terms.positive (SenderConfig.linkInterval_pos_of_validate valid)).exponent
  have hPower : 1 < (1.0 + Scalar.min c.lowGain (c.tables.increaseAt c.window)) ^
      c.scaling.exponent := by
    refine Real.one_lt_rpow ?_ hExponent
    norm_num
    exact hGain
  change 0 < (1.0 + Scalar.min c.lowGain (c.tables.increaseAt c.window)) ^ c.scaling.exponent - 1.0
  norm_num at hPower ⊢
  exact hPower

theorem addition_pos (h : c.Lawful config tables) (valid : config.validate = .ok ())
    (positive : tables.Positive) : 0 < c.addition := by
  have hAccepted := SenderConfig.accepted_of_validate valid
  have hTables : c.tables = tables := congrArg Prod.snd (h.bounds.gains_eq _ rfl)
  have hConfig : c.config = config := h.bounds.config_eq
  have hWindow : 1.0 ≤ c.window := h.bounds.admits.one_le
  have hFactor := (h.terms.positive (SenderConfig.linkInterval_pos_of_validate valid)).factor
  have hTerm : 0 < c.additiveTerm := by
    have hAlpha := hAccepted.alpha_pos
    have hWeight := hAccepted.weight_pos
    norm_num at hWindow
    rw [WindowState.additiveTerm, hConfig]
    positivity
  unfold addition
  split
  · rw [Scalar.min_eq_min, hTables]
    exact lt_min hTerm (positive.limiter _)
  · exact hTerm

/-- Either kind of increase makes the window larger, unless it is the largest one already. -/
theorem respond_of_growth (h : c.Lawful config tables) (valid : config.validate = .ok ())
    (positive : tables.Positive) (hAction : c.choose code = .increase ∨ c.choose code = .add) :
    c.window < (c.respond code now).window ∨
      config.maxWindow = some c.window ∧ (c.respond code now).window = c.window := by
  have hConfig : c.config = config := h.bounds.config_eq
  have hWithin : ∀ bound, c.config.maxWindow = some bound → c.window ≤ bound := h.bounds.window_le
  have hGrow {change : ℝ} (pos : 0 < change) := WindowState.window_grow_of_pos pos hWithin
  rw [hConfig] at hGrow
  rcases hAction with hIncrease | hAdd
  · simpa only [respond, hIncrease, act] using hGrow (h.multiplication_pos valid positive)
  · simpa only [respond, hAdd, act] using hGrow (h.addition_pos valid positive)

theorem respond_of_decrease (h : c.Lawful config tables) (hAction : c.choose code = .decrease) :
    (c.respond code now).window = max (config.beta * c.window) 1 := by
  have hConfig : c.config = config := h.bounds.config_eq
  have hCut : (c.respond code now).window =
      Scalar.max (c.window * c.config.beta) WindowState.minWindow := by
    simp [respond, hAction, act, cut, holdDown]
  rw [hCut, Scalar.max_eq_max, hConfig, mul_comm, WindowState.minWindow_eq_one]

/-- Of all events, only a decrease and a reset can make the window smaller. -/
theorem window_le_after (h : c.Lawful config tables) (valid : config.validate = .ok ())
    (positive : tables.Positive) {event : WindowEvent} (notReset : event ≠ .reset)
    (spared : ∀ p now, event = .ack p now → ¬c.Decreases p now) :
    c.window ≤ (c.after event).window := by
  have hSame {d : Controller ℝ} (alike : (Controller.coded c).Alike d) : c.window ≤ d.window :=
    alike.window_eq.ge
  cases event with
  | ack p now =>
      rcases c.onAck_cases p now with ⟨fault, _, hResult⟩ | ⟨code, _, hResult⟩
      · simp only [Coded.after, hResult, le_refl]
      · have hDecrease : c.choose code ≠ .decrease := fun hAction =>
          spared p now rfl ⟨code, by rw [hResult], by rw [hResult, action_respond, hAction]⟩
        simp only [Coded.after, hResult]
        cases hAction : c.choose code with
        | decrease => exact absurd hAction hDecrease
        | freeze => exact (window_respond_of_freeze hAction).ge
        | increase =>
            exact (h.respond_of_growth valid positive (Or.inl hAction)).elim le_of_lt (·.2.ge)
        | add =>
            exact (h.respond_of_growth valid positive (Or.inr hAction)).elim le_of_lt (·.2.ge)
  | measured estimate => exact le_refl _
  | sent paced => cases paced <;> exact le_refl _
  | timer timer now => exact hSame (Controller.alike_coded c timer now)
  | timeout now => exact hSame ((Controller.coded c).alike_onTimeout now)
  | pace now => exact hSame ((Controller.coded c).alike_pace now)
  | reset => exact absurd rfl notReset
  | close => exact le_refl _

end Lawful

/-- No acknowledgment of the list is answered by a decrease. -/
def Spared {α : Type} [PowerScalar α] (c : Coded α) : List WindowEvent → Prop
  | [] => True
  | event :: rest => (∀ p now, event = .ack p now → ¬c.Decreases p now) ∧ (c.after event).Spared rest

/-- What the window reaches it keeps while it is spared, up to a reset. -/
theorem Lawful.le_window_run (h : c.Lawful config tables) (valid : config.validate = .ok ())
    (positive : tables.Positive) {low : ℝ} (reached : low ≤ c.window) {segment : List WindowEvent}
    (spared : c.Spared segment) (atReset : .reset ∈ segment → low ≤ config.initialWindow) :
    low ≤ (c.run segment).window := by
  induction segment generalizing c with
  | nil => exact reached
  | cons event rest ih =>
      obtain ⟨hEvent, hRest⟩ := spared
      have hNext : low ≤ (c.after event).window := by
        by_cases hReset : event = .reset
        · have hConfig : c.config = config := h.bounds.config_eq
          subst hReset
          change low ≤ c.config.initialWindow
          rw [hConfig]
          exact atReset List.mem_cons_self
        · exact reached.trans (h.window_le_after valid positive hReset hEvent)
      exact ih (h.after valid positive event) hNext hRest
        fun hMem => atReset (List.mem_cons_of_mem event hMem)

/-- Under settings that are accepted, after any events: a freeze leaves the window as it is, either kind
of increase makes it larger unless it is the largest window already, and a decrease cuts it by `beta`, but
not below one packet, and so makes it smaller unless it is one packet already. While no acknowledgment is
answered by a decrease, nothing else makes the window smaller but a reset, which takes it to the initial
one. -/
theorem only_decreases_shrink {config : SenderConfig ℝ} (valid : config.validate = .ok ())
    (law : config.law = .coded) {tables : WindowTables ℝ} (positive : tables.Positive) :
    ∃ start : Coded ℝ, Controller.build config tables = .ok (.coded start) ∧ ∀ events,
      let c := start.run events
      (∀ p now code, check p = .ok code →
        let d := (c.onAck p now).2
        (d.action = .freeze → d.window = c.window) ∧
        (d.action = .increase ∨ d.action = .add →
          c.window < d.window ∨ config.maxWindow = some c.window ∧ d.window = c.window) ∧
        (d.action = .decrease → d.window = max (config.beta * c.window) 1 ∧
          (d.window < c.window ∨ c.window = 1 ∧ d.window = 1))) ∧
      ∀ segment, c.Spared segment →
        (.reset ∉ segment → c.window ≤ (c.run segment).window) ∧
        min c.window config.initialWindow ≤ (c.run segment).window := by
  have hBuilt : Controller.build config tables = .ok (.coded (.start config tables)) := by
    refine Controller.build_eq_ok_iff.mpr ⟨valid, ?_⟩
    rw [Controller.start, law]
  refine ⟨_, hBuilt, fun events => ?_⟩
  intro c
  have hLawful : c.Lawful config tables := (Lawful.start valid positive law).run valid positive events
  refine ⟨fun p now code hCheck => ?_, fun segment hSpared => ⟨fun hReset => ?_, ?_⟩⟩
  · have hAnswer : (c.onAck p now).2 = c.respond code now := by rw [onAck, hCheck]
    dsimp only
    rw [hAnswer, action_respond]
    refine ⟨window_respond_of_freeze, hLawful.respond_of_growth valid positive, fun hAction => ?_⟩
    have hAccepted := SenderConfig.accepted_of_validate valid
    have hCut : (c.respond code now).window = max (config.beta * c.window) 1 :=
      hLawful.respond_of_decrease hAction
    have hOne : 1 ≤ c.window := by
      have hLaw := hLawful.bounds.admits.one_le
      norm_num at hLaw
      exact hLaw
    have hLess : config.beta * c.window < c.window :=
      mul_lt_of_lt_one_left (zero_lt_one.trans_le hOne) hAccepted.beta_lt
    refine ⟨hCut, ?_⟩
    rw [hCut]
    rcases hOne.lt_or_eq with hAbove | hAt
    · exact Or.inl (max_lt hLess hAbove)
    · refine Or.inr ⟨hAt.symm, max_eq_right ?_⟩
      rw [← hAt] at hLess ⊢
      exact hLess.le
  · exact hLawful.le_window_run valid positive (le_refl _) hSpared fun hMem => absurd hMem hReset
  · exact hLawful.le_window_run valid positive (min_le_left _ _) hSpared fun _ => min_le_right _ _

/-- With the default settings, low load makes the first window larger, overload cuts it to seven eighths,
and the end of the freeze leaves it there. -/
theorem standard_grows_until_overload :
    let low := (Packet.ack 1 1 40 0 0).withFeedback (.ofCode .low)
    let overload := (Packet.ack 1 1 40 0 0).withFeedback (.ofCode .over)
    (SenderConfig.standard : SenderConfig ℝ).validate = .ok () ∧
      (SenderConfig.standard : SenderConfig ℝ).law = .coded ∧ WindowTables.Positive .standard ∧
      check low = .ok .low ∧ check overload = .ok .over ∧
      ∃ start : Coded ℝ, Controller.build .standard .standard = .ok (.coded start) ∧
        start.window < (start.onAck low 0).2.window ∧
        (start.onAck overload 0).2.window = max (0.875 * start.window) 1 ∧
        (start.run [.ack overload 0]).window ≤
          ((start.run [.ack overload 0]).run [.timeout (Span.millis 200)]).window := by
  intro low overload
  have hGain : (0 : ℝ) < 0.25 := by norm_num
  have hValid : (SenderConfig.standard : SenderConfig ℝ).validate = .ok () :=
    SenderConfig.validate_standard .coded hGain
  have hPositive := WindowTables.positive_standard
  have hLow : check low = .ok .low := rfl
  have hOver : check overload = .ok .over := rfl
  obtain ⟨start, hBuilt, hRuns⟩ := only_decreases_shrink hValid rfl hPositive
  have hFresh : start.phase = .none := by
    obtain ⟨_, hStart⟩ := Controller.build_eq_ok_iff.mp hBuilt
    cases hStart
    rfl
  obtain ⟨hActions, _⟩ := hRuns []
  obtain ⟨_, hGrows, _⟩ := hActions low 0 .low hLow
  obtain ⟨_, _, hCuts⟩ := hActions overload 0 .over hOver
  obtain ⟨_, hSegments⟩ := hRuns [.ack overload 0]
  refine ⟨hValid, rfl, hPositive, hLow, hOver, start, hBuilt, ?_, ?_, ?_⟩
  · rcases hGrows (Or.inl rfl) with hMore | ⟨hMax, _⟩
    · exact hMore
    · cases hMax
  · have hAction : (start.onAck overload 0).2.action = .decrease := by
      change start.choose .over = .decrease
      rw [choose, hFresh]
    exact (hCuts hAction).1
  · have hSpared : (start.run [.ack overload 0]).Spared [.timeout (Span.millis 200)] :=
      ⟨fun _ _ hAck => WindowEvent.noConfusion hAck, trivial⟩
    exact (hSegments _ hSpared).1 (by simp)

end Coded
end LoadFeedback
