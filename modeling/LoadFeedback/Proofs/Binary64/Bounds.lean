import LoadFeedback.Proofs.Binary64.Magnitude
import LoadFeedback.Proofs.Simulation.AckClock

/-! The laws that keep a window open, for doubles. Rounding keeps them, and the spans of a
simulation are far from too long and too short; what is left to be assumed is about powers. -/
namespace LoadFeedback.Binary64

open Float.Model Float.Model.UnpackedFloat
open Float.Model.Format (binary64)

theorem nonneg_pack_zero (s : Sign) : Nonneg (Float.Model.pack (.zero s)).unpack := by
  rw [unpack_pack_zero]
  trivial

/-- A positive number is stored as one, as zero, or beyond all numbers. -/
theorem nonneg_pack_roundWithAccuracy (m : Nat) (e : Int) (accuracy : Accuracy) :
    Nonneg (Float.Model.pack (roundWithAccuracy binary64 .positive m e accuracy)).unpack := by
  unfold roundWithAccuracy
  simp only
  split
  · exact nonneg_pack_zero _
  · exact nonneg_pack_finite _

theorem nonneg_cases {u : UnpackedFloat} (h : Nonneg u) :
    u = .infinity .positive ∨ (∃ s, u = .zero s) ∨ ∃ m e hm, u = .finite .positive m e hm := by
  cases u with
  | notANumber => exact h.elim
  | infinity s =>
      cases s
      · exact h.elim
      · exact Or.inl rfl
  | zero s => exact Or.inr (Or.inl ⟨s, rfl⟩)
  | finite s m e hm =>
      cases s
      · exact h.elim
      · exact Or.inr (Or.inr ⟨m, e, hm, rfl⟩)

/-- The whole part of a positive number. -/
theorem roundToInt_positive (m : Nat) (e : Int) :
    roundToInt .positive m e = (m <<< e.toNat / 2 ^ (-e).toNat : Nat) := by
  have hShift : (0 - (e - (e.toNat : Int))).toNat = (-e).toNat := by omega
  simp only [roundToInt, decreaseExponent, shiftToExponent, mantissa_shiftRight,
    mantissa_ofMantissaAndAccuracy, Sign.apply, Int.sub_zero, hShift]

theorem one_le_ofNatClamp {n : Nat} (h : 1 ≤ n) : 1 ≤ (UInt64.ofNatClamp n).toNat := by
  unfold UInt64.ofNatClamp
  split
  · exact h
  · decide

theorem one_le_floor {x : Float} (h : 1.0 ≤ x) : 1 ≤ Scalar.floor x := by
  change 1 ≤ (UnpackedFloat.toUInt64 x.toModel.unpack).toNat
  rcases (one_le_iff x).mp h with hRead | ⟨_, m, e, hm, hRead, hDigits, hLow, _⟩
  · rw [hRead]
    decide
  · rw [hRead]
    refine one_le_ofNatClamp ?_
    change 1 ≤ (roundToInt .positive m e).toNat
    rw [roundToInt_positive, Int.toNat_natCast, Nat.one_le_div_iff (Nat.two_pow_pos _)]
    calc 2 ^ (-e).toNat ≤ 2 ^ (52 + 0) := Nat.pow_le_pow_right (by decide) (by omega)
      _ ≤ m <<< e.toNat := le_shiftLeft hDigits (Nat.zero_le _)

theorem one_le_infinity : 1.0 ≤ (⟨Float.Model.pack (.infinity .positive)⟩ : Float) :=
  (one_le_iff _).mpr (Or.inl (unpack_pack_infinity .positive))

/-- A number of at least one is stored as one, or beyond all numbers. -/
theorem one_le_pack {m : Nat} {e : Int} (h : 0 < m) (digits : m.log2 = 52) (least : 1 ≤ e + 53) :
    1.0 ≤ (⟨Float.Model.pack (.finite .positive m e h)⟩ : Float) := by
  have hRead := unpack_pack_finite .positive (e := e) h digits (by omega)
  rw [one_le_iff]
  split at hRead
  · exact Or.inr ⟨_, m, e, h, hRead, digits, least, Int.le_refl _⟩
  · exact Or.inl hRead

theorem one_le_add {x y : Float} (h : 1.0 ≤ x) (k : 0.0 ≤ y) : 1.0 ≤ x + y := by
  rw [nonneg_iff] at k
  rw [add_eq]
  rcases (one_le_iff x).mp h with hRead | ⟨_, m, e, hm, hRead, hDigits, hLow, _⟩
  · rw [hRead]
    rcases nonneg_cases k with kRead | ⟨t, kRead⟩ | ⟨n, f, hn, kRead⟩ <;> rw [kRead] <;>
      exact one_le_infinity
  · rw [hRead]
    rcases nonneg_cases k with kRead | ⟨t, kRead⟩ | ⟨n, f, hn, kRead⟩
    · rw [kRead]
      exact one_le_infinity
    · rw [kRead]
      exact one_le_pack hm hDigits hLow
    -- The sum is not below the first number, so its leading digit is not below that one's.
    · rw [kRead, add_finite]
      have hPos := Nat.add_pos_left (shiftLeft_pos hm (e - min e f).toNat)
        (n <<< (f - min e f).toNat)
      have hLeast := le_log2_shiftLeft_add hDigits (e - min e f).toNat (n <<< (f - min e f).toNat)
      obtain ⟨l, g, hl, hRound, lDigits, lLow, _⟩ :=
        round_eq .positive hPos (e := min e f) (by omega)
      rw [hRound]
      exact one_le_pack hl lDigits (by omega)

theorem sub_one_nonneg {x : Float} (h : 1.0 ≤ x) : 0.0 ≤ x - 1.0 := by
  rw [nonneg_iff, sub_eq, unpack_one]
  rcases (one_le_iff x).mp h with hRead | ⟨_, m, e, hm, hRead, hDigits, hLow, _⟩
  · rw [hRead]
    trivial
  · have hMantissa := ((Nat.log2_eq_iff (Nat.ne_of_gt hm)).mp hDigits).1
    have hLe := shiftLeft_le_shiftLeft (n := 2 ^ 52) (e := e) (f := -52) hDigits Nat.log2_two_pow
      (by omega)
    rw [hRead, sub_finite hm _ hLe]
    split
    · exact nonneg_pack_zero _
    · exact nonneg_pack_roundWithAccuracy _ _ _

theorem div_nonneg {a b : Int} {x y : Float} (h : Within a b x) (k : 1.0 ≤ y) : 0.0 ≤ x / y := by
  rw [nonneg_iff, div_eq]
  rcases h with ⟨s, hRead⟩ | ⟨m, e, hm, hRead, _⟩ <;> rw [hRead] <;>
    rcases (one_le_iff y).mp k with kRead | ⟨_, n, f, hn, kRead, _⟩ <;> rw [kRead]
  · exact nonneg_pack_zero _
  · exact nonneg_pack_zero _
  · exact nonneg_pack_zero _
  · exact nonneg_pack_roundWithAccuracy _ _ _

theorem mul_nonneg_of_spans {a b : Int} {x y : Float} (h : Spans a b x) (k : 0.0 ≤ y) : 0.0 ≤ x * y := by
  obtain ⟨m, e, hm, hRead, _⟩ := h
  rw [nonneg_iff] at k ⊢
  rw [mul_eq, hRead]
  rcases nonneg_cases k with kRead | ⟨s, kRead⟩ | ⟨n, f, hn, kRead⟩ <;> rw [kRead]
  · change Nonneg (Float.Model.pack (.infinity .positive)).unpack
    rw [unpack_pack_infinity]
    trivial
  · exact nonneg_pack_zero _
  · exact nonneg_pack_roundWithAccuracy _ _ _

section

variable {s t : Nat}

theorem unpack_ofNat_zero : (Float.ofNat 0).toModel.unpack = .zero .positive := by
  with_unfolding_all rfl

theorem within_ofNat (word : s < 2 ^ 64) : Within 1 67 (Float.ofNat s) := by
  rcases Nat.eq_zero_or_pos s with rfl | hPos
  · exact Or.inl ⟨_, unpack_ofNat_zero⟩
  · exact Or.inr (spans_ofNat hPos word)

theorem spans_billion : Spans 30 30 1e9 :=
  spans_of_place (by with_unfolding_all rfl)

/-- A span of fewer seconds than a machine word counts, as a number of seconds. -/
theorem spans_seconds (positive : 0 < s) (word : s / 1000000000 < 2 ^ 64) :
    Spans (-29) 69 (Span.seconds s) := by
  change Spans _ _ (Float.ofNat (s / 1000000000) + Float.ofNat (s % 1000000000) / 1e9)
  have hRest : s % 1000000000 < 2 ^ 64 := by omega
  rcases Nat.eq_zero_or_pos (s / 1000000000) with hWhole | hWhole
  · have hSome : 0 < s % 1000000000 := by omega
    have hSpans := (spans_ofNat hSome hRest).div spans_billion (by decide) (by decide)
    rw [hWhole]
    exact (hSpans.zero_add unpack_ofNat_zero (by decide) (by decide)).mono (by decide) (by decide)
  · have hWithin := (within_ofNat hRest).div spans_billion (by decide) (by decide)
    have hSpans := (spans_ofNat hWhole word).add_within hWithin (by decide) (by decide)
    exact hSpans.mono (by decide) (by decide)

theorem within_seconds (word : s / 1000000000 < 2 ^ 64) : Within (-29) 69 (Span.seconds s) := by
  rcases Nat.eq_zero_or_pos s with rfl | hPos
  · exact Or.inl ⟨.positive, by with_unfolding_all rfl⟩
  · exact Or.inr (spans_seconds hPos word)

theorem within_ratio (hs : s / 1000000000 < 2 ^ 64) (positive : 0 < t)
    (ht : t / 1000000000 < 2 ^ 64) : Within (-98) 100 (Span.seconds s / Span.seconds t) :=
  (within_seconds hs).div (spans_seconds positive ht) (by decide) (by decide)

end

/-- The factor of the additive increase stays in range. -/
theorem within_factorOf {ratio : Float} (h : Within (-98) 100 ratio) :
    Within (-200) 202 (Scaling.factorOf ratio) := by
  unfold Scaling.factorOf
  split
  · have hFifth : Within (-2) (-2) (0.2 : Float) := .inr (spans_of_place (by with_unfolding_all rfl))
    exact (h.mul hFifth (by decide) (by decide)).mono (by decide) (by decide)
  · split
    · exact (h.mul h (by decide) (by decide)).mono (by decide) (by decide)
    · next hAbove =>
      have hFive : Spans 3 3 (5.0 : Float) := spans_of_place (by with_unfolding_all rfl)
      have hSquare : Spans 5 5 (5.0 * 5.0 : Float) := spans_of_place (by with_unfolding_all rfl)
      rcases h with ⟨s, hRead⟩ | hSpans
      · obtain ⟨m, e, hm, hFiveRead, _⟩ := hFive
        rw [le_iff, hRead, hFiveRead] at hAbove
        exact absurd rfl hAbove
      · have hRest := hSpans.sub hFive hAbove (by decide) (by decide)
        exact (hRest.add (.inr hSquare) (by decide) (by decide)).mono (by decide) (by decide)

/-- With the gains of a simulation, terms that are in range do not shrink a window. -/
theorem lifts_of_within {terms : Scaling Float} (o : Options Float)
    (factor : Within (-200) 202 terms.factor) (exponent : 0.0 ≤ terms.exponent) :
    terms.Lifts (Simulation.senderConfig o) where
  addition window hWindow := by
    have hOne : Within 1 1 (1.0 : Float) := .inr spans_one
    have hProduct := (factor.mul hOne (by decide) (by decide)).mul hOne (by decide) (by decide)
    exact div_nonneg hProduct hWindow
  exponent := exponent

theorem longest_div_lt {o : Options Float} (words : o.InWords) :
    o.longest / 1000000000 < 2 ^ 64 := by
  have hDuration := words.duration
  refine Nat.div_lt_of_lt_mul (Nat.max_lt.mpr ⟨by decide, ?_⟩)
  change o.duration < 2 ^ 64 at hDuration
  change o.duration * 1000000000 < 1000000000 * 2 ^ 64
  omega

/-- The settings that a simulation is built with are sound for its round trips. -/
theorem sound_of_build {o : Options Float} {tables : WindowTables Float} {s : Simulation Float}
    (built : Simulation.build o tables = .ok s) (words : o.InWords) (nonneg : tables.Nonneg) :
    (Simulation.senderConfig o).Sound tables fun estimate => estimate.smoothed ≤ o.longest := by
  obtain ⟨capacity, _, _, hValid, _⟩ := Simulation.build_eq built
  have hPositive : 0 < Span.millis o.measurementInterval :=
    (LinkConfig.accepted_of_validate hValid).measurementInterval_pos
  have hInterval : Span.millis o.measurementInterval / 1000000000 < 2 ^ 64 := by
    have hWord := words.measurementInterval
    change o.measurementInterval < 2 ^ 64 at hWord
    change o.measurementInterval * 1000000 / 1000000000 < 2 ^ 64
    omega
  constructor
  case admits =>
    refine ⟨?_, nofun⟩
    change (1.0 : Float) ≤ 2.0
    exact (le_iff _ _).mpr (by with_unfolding_all rfl)
  case lowGain =>
    change (0.0 : Float) ≤ 0.25 * (100.0 / Float.ofNat 80 - 1.0)
    exact (le_iff _ _).mpr (by with_unfolding_all rfl)
  case tables => exact nonneg
  case start =>
    have hOne : Within 1 1 (1.0 : Float) := .inr spans_one
    have hExponent := (within_ratio (s := typicalRoundTrip) (by decide) hPositive hInterval).nonneg
    exact lifts_of_within o (hOne.mono (by decide) (by decide)) hExponent
  case update =>
    intro estimate hEstimate
    have hControl : estimate.control / 1000000000 < 2 ^ 64 := by
      have hGranule : timerGranule ≤ o.longest := Nat.le_trans (by decide) (Nat.le_max_left _ _)
      have hLe : estimate.control ≤ o.longest := Nat.max_le.mpr ⟨hEstimate, hGranule⟩
      exact Nat.lt_of_le_of_lt (Nat.div_le_div_right hLe) (longest_div_lt words)
    have hRatio := within_ratio (t := typicalRoundTrip) hControl (by decide) (by decide)
    have hExponent := (within_ratio hControl hPositive hInterval).nonneg
    have hCap : (0.0 : Float) ≤ 2.5 := (le_iff _ _).mpr (by with_unfolding_all rfl)
    exact lifts_of_within o (within_factorOf hRatio) (Scalar.le_min hExponent hCap)
  case bound => exact nofun
  case cut => exact fun _ _ => nofun

/-- No power with a base of at least one and an exponent of at least zero is below one. -/
def PowersKeepUnit : Prop :=
  ∀ x e : Float, 1.0 ≤ x → 0.0 ≤ e → 1.0 ≤ Float.pow x e

theorem keepsWindows (powers : PowersKeepUnit) : KeepsWindows Float where
  one_le_one := (le_iff _ _).mpr (by with_unfolding_all rfl)
  one_le_floor _ h := one_le_floor h
  one_le_add _ _ h k := one_le_add h k
  sub_one_nonneg _ h := sub_one_nonneg h
  one_le_pow := powers
  sound := sound_of_build

/-- Whatever a command line asks for, each flow that has begun waits for an acknowledgment. -/
theorem waits_of_parse {arguments : List String} {o : Options Float} {tables : WindowTables Float}
    {s t : Simulation Float} {l : Ledger} {moves : List Simulation.Move} {id : Nat}
    {session : Session Float} {now : Instant} (accepted : CommandLine.parse? arguments = some o)
    (built : Simulation.build o tables = .ok s) (powers : PowersKeepUnit) (nonneg : tables.Nonneg)
    (recorded : Simulation.Recorded s moves l t) (found : t.session? id = some session)
    (handled : Simulation.Move.event (.start id) now ∈ moves)
    (numbers : session.flow.nextSeq < Flow.maxSeq) :
    1 ≤ session.flow.nextSeq - session.flow.acked :=
  recorded.waits built (keepsWindows powers) (CommandLine.inWords_of_parse accepted) nonneg found
    handled numbers

end LoadFeedback.Binary64
