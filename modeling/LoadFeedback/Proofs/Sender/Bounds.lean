import LoadFeedback.Proofs.Sender.Controller

/-! The bounds of a window. An increase is held to the largest window and a decrease stops at one
packet, but neither is held to the other bound. That both are kept rests on the settings, on the sign of
each change, and on a few laws of the arithmetic. -/
namespace LoadFeedback

variable {α : Type}

/-- What the bounds take from the arithmetic. It holds of numbers, and also where sums and differences
are rounded but keep the order. -/
structure KeepsUnit (α : Type) [PowerScalar α] : Prop where
  one_le_one : (1.0 : α) ≤ 1.0
  one_le_floor : ∀ x : α, 1.0 ≤ x → 1 ≤ Scalar.floor x
  one_le_add : ∀ x y : α, 1.0 ≤ x → 0.0 ≤ y → 1.0 ≤ x + y
  sub_one_nonneg : ∀ x : α, 1.0 ≤ x → 0.0 ≤ x - 1.0
  one_le_pow : ∀ x e : α, 1.0 ≤ x → 0.0 ≤ e → 1.0 ≤ PowerScalar.pow x e

section

variable [Scalar α]

namespace Scalar

theorem right_le_max {x y : α} (h : y ≤ y) : y ≤ Scalar.max x y := by
  unfold Scalar.max
  split
  · assumption
  · exact h

theorem max_le {x y z : α} (hx : x ≤ z) (hy : y ≤ z) : Scalar.max x y ≤ z := by
  unfold Scalar.max
  split
  · exact hx
  · split <;> assumption

theorem min_le_right {x y : α} (h : y ≤ y) : Scalar.min x y ≤ y := by
  unfold Scalar.min
  split
  · assumption
  · exact h

theorem le_min {x y z : α} (hx : z ≤ x) (hy : z ≤ y) : z ≤ Scalar.min x y := by
  unfold Scalar.min
  split
  · exact hx
  · split <;> assumption

end Scalar

/-- Gains that never shrink a window. -/
structure WindowTables.Nonneg (tables : WindowTables α) : Prop where
  increase : ∀ i : Fin Window.gridSize, 0.0 ≤ tables.increase[i]
  limiter : ∀ i : Fin Window.gridSize, 0.0 ≤ tables.limiter[i]

/-- Terms under which an increase does not shrink a window. -/
structure Scaling.Lifts (terms : Scaling α) (config : SenderConfig α) : Prop where
  addition : ∀ window, 1.0 ≤ window → 0.0 ≤ terms.factor * config.alpha * config.weight / window
  exponent : 0.0 ≤ terms.exponent

namespace SenderConfig

/-- A window of at least one packet that is not above the largest one. -/
structure Admits (config : SenderConfig α) (window : α) : Prop where
  one_le : 1.0 ≤ window
  le_bound : ∀ bound, config.maxWindow = some bound → window ≤ bound

/-- The gain of a multiplicative increase at the low threshold. -/
def lowGain (config : SenderConfig α) : α :=
  config.k * (100.0 / Scalar.ofNat LoadCode.lowThreshold - 1.0)

/-- Settings under which no increase shrinks a window and no cut exceeds the largest one, as long as the
estimates of the round trip are among these. -/
structure Sound (config : SenderConfig α) (tables : WindowTables α) (estimates : RoundTrip → Prop) :
    Prop where
  admits : config.Admits config.initialWindow
  lowGain : 0.0 ≤ config.lowGain
  tables : tables.Nonneg
  start : (Scaling.start config.linkInterval).Lifts config
  update : ∀ estimate, estimates estimate →
    ((Scaling.start config.linkInterval).update estimate).Lifts config
  bound : ∀ bound, config.maxWindow = some bound → 1.0 ≤ bound ∧ bound ≤ bound
  cut : ∀ window, config.Admits window →
    ∀ bound, config.maxWindow = some bound → window * config.beta ≤ bound

end SenderConfig

/-- What a window is held to is admitted, if it is not below one packet. -/
theorem SenderConfig.Sound.admits_bounded {config : SenderConfig α} {tables : WindowTables α}
    {estimates : RoundTrip → Prop} (sound : config.Sound tables estimates) {s : WindowState α}
    (hConfig : s.config = config) {window : α} (h : 1.0 ≤ window) :
    config.Admits (s.bounded window) := by
  unfold WindowState.bounded
  rw [hConfig]
  cases hMax : config.maxWindow with
  | none => exact ⟨h, fun _ hSome => by cases hMax.symm.trans hSome⟩
  | some bound =>
      obtain ⟨hOne, hSelf⟩ := sound.bound bound hMax
      refine ⟨Scalar.le_min h hOne, fun other hSome => ?_⟩
      cases hMax.symm.trans hSome
      exact Scalar.min_le_right hSelf

namespace Controller

/-- The gain of a multiplicative increase at the low threshold and the tables, if the law uses them. -/
def gains? : Controller α → Option (α × WindowTables α)
  | coded c => some (c.lowGain, c.tables)
  | raw _ => none

/-- A window that is admitted, and whose increases do not shrink it. -/
structure InBounds (c : Controller α) (config : SenderConfig α) (tables : WindowTables α) : Prop where
  config_eq : c.state.config = config
  admits : config.Admits c.state.window
  interval_eq : c.state.scaling.linkInterval = config.linkInterval
  lifts : c.state.scaling.Lifts config
  gains_eq : ∀ gains, c.gains? = some gains → gains = (config.lowGain, tables)

/-- Both controllers have the same settings, the same window and the same terms. -/
structure Alike (c d : Controller α) : Prop where
  config_eq : d.state.config = c.state.config
  window_eq : d.state.window = c.state.window
  scaling_eq : d.state.scaling = c.state.scaling
  gains_eq : d.gains? = c.gains?

section

omit [Scalar α]

theorem Alike.refl (c : Controller α) : c.Alike c := ⟨rfl, rfl, rfl, rfl⟩

theorem Alike.trans {c d e : Controller α} (h : c.Alike d) (k : d.Alike e) : c.Alike e where
  config_eq := k.config_eq.trans h.config_eq
  window_eq := k.window_eq.trans h.window_eq
  scaling_eq := k.scaling_eq.trans h.scaling_eq
  gains_eq := k.gains_eq.trans h.gains_eq

/-- Another state of the window leaves the gains alone. -/
theorem alike_withState (c : Controller α) {s : WindowState α} (config : s.config = c.state.config)
    (window : s.window = c.state.window) (scaling : s.scaling = c.state.scaling) :
    c.Alike (c.withState s) := by
  cases c <;> exact ⟨config, window, scaling, rfl⟩

theorem alike_sent (c : Controller α) (paced : Bool) : c.Alike (c.sent paced) := by
  cases paced <;> exact c.alike_withState rfl rfl rfl

theorem alike_close (c : Controller α) : c.Alike c.close := c.alike_withState rfl rfl rfl

end

theorem alike_pace (c : Controller α) (now : Instant) : c.Alike (c.pace now).2 := by
  obtain ⟨timers, hPace, _⟩ := c.state.pace_cases now
  have hNext : (c.pace now).2 = c.withState { c.state with timers := timers } := by
    rw [pace, Prod.map_snd, hPace]
  rw [hNext]
  exact c.alike_withState rfl rfl rfl

theorem alike_coded (c : Coded α) (timer : Timer) (now : Instant) :
    (coded c).Alike (coded (c.onTimer timer now).2) := by
  have hStep := c.delivers_onTimer timer now
  generalize c.onTimer timer now = result at hStep ⊢
  cases hStep <;> exact ⟨rfl, rfl, rfl, rfl⟩

theorem alike_onTimer (c : Controller α) (timer : Timer) (now : Instant) :
    c.Alike (c.onTimer timer now).2 := by
  cases c with
  | coded c => exact alike_coded c timer now
  | raw r => cases timer <;> exact ⟨rfl, rfl, rfl, rfl⟩

theorem alike_onTimeout (c : Controller α) (now : Instant) : c.Alike (c.onTimeout now).2 := by
  cases c with
  | coded c =>
      have hAll := Coded.deliver_keeps (P := fun d => (coded c).Alike (coded d))
        (fun d timer _ h => h.trans (alike_coded d timer now))
        [.holdDownFirst, .holdDownSecond, .pacing] c false (.refl _)
      exact hAll
  | raw r =>
      simp only [onTimeout, Raw.onTimeout, Prod.map_snd]
      split
      · exact alike_onTimer (raw r) .pacing now
      · exact .refl _

namespace InBounds

variable {c d : Controller α} {config : SenderConfig α} {tables : WindowTables α}
  {estimates : RoundTrip → Prop}

theorem congr (h : c.InBounds config tables) (alike : c.Alike d) : d.InBounds config tables where
  config_eq := alike.config_eq.trans h.config_eq
  admits := alike.window_eq ▸ h.admits
  interval_eq := alike.scaling_eq ▸ h.interval_eq
  lifts := alike.scaling_eq ▸ h.lifts
  gains_eq := alike.gains_eq ▸ h.gains_eq

theorem window_le (h : c.InBounds config tables) :
    ∀ bound, c.state.config.maxWindow = some bound → c.state.window ≤ bound := by
  rw [h.config_eq]
  exact h.admits.le_bound

theorem of_start (sound : config.Sound tables estimates) :
    (start config tables).InBounds config tables := by
  unfold start
  split
  · exact ⟨rfl, sound.admits, rfl, sound.start, fun _ hGains => (Option.some.inj hGains).symm⟩
  · exact ⟨rfl, sound.admits, rfl, sound.start, fun _ hGains => by cases hGains⟩

/-- The window starts anew, with the terms that it had at first. -/
theorem reset (h : c.InBounds config tables) (sound : config.Sound tables estimates) :
    c.reset.InBounds config tables := by
  have hStart : (c.state.scaling.reset).Lifts config := by
    rw [Scaling.reset, h.interval_eq]
    exact sound.start
  have hAdmits : config.Admits c.state.config.initialWindow := h.config_eq ▸ sound.admits
  cases c with
  | coded c => exact ⟨h.config_eq, hAdmits, h.interval_eq, hStart, h.gains_eq⟩
  | raw r => exact ⟨h.config_eq, hAdmits, h.interval_eq, hStart, h.gains_eq⟩

/-- New terms replace the present ones, but for the interval of the links. -/
theorem measured (h : c.InBounds config tables) (sound : config.Sound tables estimates)
    {estimate : RoundTrip} (hEstimate : estimates estimate) :
    (c.measured estimate).InBounds config tables := by
  have hTerms : (c.state.scaling.update estimate).Lifts config := by
    have hSame : c.state.scaling.update estimate =
        (Scaling.start config.linkInterval).update estimate := by
      simp only [Scaling.update, Scaling.start, h.interval_eq]
    rw [hSame]
    exact sound.update estimate hEstimate
  cases c with
  | coded c => exact ⟨h.config_eq, h.admits, h.interval_eq, hTerms, h.gains_eq⟩
  | raw r => exact ⟨h.config_eq, h.admits, h.interval_eq, hTerms, h.gains_eq⟩

end InBounds

end Controller

end

variable [PowerScalar α] {config : SenderConfig α} {tables : WindowTables α}
  {estimates : RoundTrip → Prop}

/-- A change that is not negative leaves the window admitted. -/
theorem SenderConfig.Sound.admits_grow (sound : config.Sound tables estimates) (laws : KeepsUnit α)
    {s : WindowState α} (hConfig : s.config = config) (h : config.Admits s.window) {change : α}
    (hChange : 0.0 ≤ change) : config.Admits (s.grow change).window :=
  sound.admits_bounded hConfig (laws.one_le_add _ _ h.one_le hChange)

namespace Coded

variable {c : Coded α}

theorem multiplication_nonneg (h : (Controller.coded c).InBounds config tables)
    (sound : config.Sound tables estimates) (laws : KeepsUnit α) : 0.0 ≤ c.multiplication := by
  have hGains := h.gains_eq _ rfl
  have hLow : c.lowGain = config.lowGain := congrArg Prod.fst hGains
  have hTables : c.tables = tables := congrArg Prod.snd hGains
  have hGain : 0.0 ≤ Scalar.min c.lowGain (c.tables.increaseAt c.window) := by
    rw [hLow, hTables]
    exact Scalar.le_min sound.lowGain (sound.tables.increase _)
  have hBase := laws.one_le_add _ _ laws.one_le_one hGain
  exact laws.sub_one_nonneg _ (laws.one_le_pow _ _ hBase h.lifts.exponent)

theorem addition_nonneg (h : (Controller.coded c).InBounds config tables)
    (sound : config.Sound tables estimates) : 0.0 ≤ c.addition := by
  have hTables : c.tables = tables := congrArg Prod.snd (h.gains_eq _ rfl)
  have hTerm : 0.0 ≤ c.additiveTerm := by
    have hConfig : c.config = config := h.config_eq
    rw [WindowState.additiveTerm, hConfig]
    exact h.lifts.addition _ h.admits.one_le
  unfold addition
  split
  · rw [hTables]
    exact Scalar.le_min hTerm (sound.tables.limiter _)
  · exact hTerm

/-- A cut ends at one packet or above, and no higher than it began. -/
theorem admits_cut (h : (Controller.coded c).InBounds config tables)
    (sound : config.Sound tables estimates) (laws : KeepsUnit α) : config.Admits c.cut.window := by
  have hConfig : c.config = config := h.config_eq
  constructor
  · exact Scalar.right_le_max laws.one_le_one
  · intro bound hMax
    have hCut := sound.cut _ h.admits bound hMax
    rw [← hConfig] at hCut
    exact Scalar.max_le hCut (sound.bound bound hMax).1

theorem inBounds_act (h : (Controller.coded c).InBounds config tables)
    (sound : config.Sound tables estimates) (laws : KeepsUnit α) (action : Action) (now : Instant) :
    (Controller.coded (c.act action now)).InBounds config tables := by
  cases action with
  | increase =>
      have hWindow := sound.admits_grow laws h.config_eq h.admits (multiplication_nonneg h sound laws)
      exact ⟨h.config_eq, hWindow, h.interval_eq, h.lifts, h.gains_eq⟩
  | add =>
      have hWindow := sound.admits_grow laws h.config_eq h.admits (addition_nonneg h sound)
      exact ⟨h.config_eq, hWindow, h.interval_eq, h.lifts, h.gains_eq⟩
  | decrease =>
      have hHeld : (Controller.coded (c.holdDown now)).InBounds config tables :=
        h.congr ⟨rfl, rfl, rfl, rfl⟩
      exact ⟨h.config_eq, admits_cut hHeld sound laws, h.interval_eq, h.lifts, h.gains_eq⟩
  | freeze => exact h

end Coded

/-- Whatever the change is, the window ends at one packet or above, and not above the largest one. -/
theorem Raw.admits_respond {r : Raw α} (h : r.config = config)
    (sound : config.Sound tables estimates) (laws : KeepsUnit α) (loadFactor : Nat) :
    config.Admits (r.respond loadFactor).window :=
  sound.admits_bounded h (Scalar.right_le_max laws.one_le_one)

namespace Controller

/-- The window after an event. -/
def after (c : Controller α) : WindowEvent → Controller α
  | .ack p now => (c.onAck p now).2
  | .measured estimate => c.measured estimate
  | .sent paced => c.sent paced
  | .timer timer now => (c.onTimer timer now).2
  | .timeout now => (c.onTimeout now).2
  | .pace now => (c.pace now).2
  | .reset => c.reset
  | .close => c.close

/-- The window after a list of events, the first one first. -/
def run (c : Controller α) (events : List WindowEvent) : Controller α :=
  events.foldl after c

theorem after_coded (c : Coded α) (event : WindowEvent) :
    (coded c).after event = coded (c.after event) := by
  cases event <;> rfl

theorem run_append (c : Controller α) (first second : List WindowEvent) :
    c.run (first ++ second) = (c.run first).run second :=
  List.foldl_append

namespace InBounds

variable {c : Controller α}

theorem onAck (h : c.InBounds config tables) (sound : config.Sound tables estimates)
    (laws : KeepsUnit α) (p : Packet) (now : Instant) :
    (c.onAck p now).2.InBounds config tables := by
  cases c with
  | coded c =>
      rcases c.onAck_cases p now with ⟨fault, _, hResult⟩ | ⟨code, _, hResult⟩
      · rw [Controller.onAck, hResult]
        exact h
      · rw [Controller.onAck, hResult]
        exact (Coded.inBounds_act h sound laws (c.choose code) now).congr ⟨rfl, rfl, rfl, rfl⟩
  | raw r =>
      simp only [Controller.onAck, Raw.onAck, Prod.map_snd]
      split
      · next loadFactor _ =>
          have hWindow := Raw.admits_respond h.config_eq sound laws loadFactor
          exact ⟨h.config_eq, hWindow, h.interval_eq, h.lifts, h.gains_eq⟩
      · exact h

/-- Every event keeps the bounds, if it brings one of the estimates that the settings are sound
for. -/
theorem after (h : c.InBounds config tables) (sound : config.Sound tables estimates)
    (laws : KeepsUnit α) (event : WindowEvent)
    (hEvent : ∀ estimate, event = .measured estimate → estimates estimate) :
    (c.after event).InBounds config tables := by
  cases event with
  | ack p now => exact h.onAck sound laws p now
  | measured estimate => exact h.measured sound (hEvent estimate rfl)
  | sent paced => exact h.congr (c.alike_sent paced)
  | timer timer now => exact h.congr (c.alike_onTimer timer now)
  | timeout now => exact h.congr (c.alike_onTimeout now)
  | pace now => exact h.congr (c.alike_pace now)
  | reset => exact h.reset sound
  | close => exact h.congr c.alike_close

theorem run (h : c.InBounds config tables) (sound : config.Sound tables estimates)
    (laws : KeepsUnit α) (events : List WindowEvent)
    (hEvents : ∀ estimate, .measured estimate ∈ events → estimates estimate) :
    (c.run events).InBounds config tables := by
  induction events generalizing c with
  | nil => exact h
  | cons event rest ih =>
      have hNext := h.after sound laws event fun estimate hEvent =>
        hEvents estimate (hEvent ▸ List.mem_cons_self)
      exact ih hNext fun estimate hRest => hEvents estimate (List.mem_cons_of_mem _ hRest)

end InBounds
end Controller
end LoadFeedback
