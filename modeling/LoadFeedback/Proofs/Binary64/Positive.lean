import LoadFeedback.Proofs.Binary64.Bounds

/-! Doubles that are positive, however large they are. What is beyond all numbers is positive as well, so
products and sums of such doubles need no bound from above. -/
namespace LoadFeedback.Binary64

open Float.Model Float.Model.UnpackedFloat
open Float.Model.Format (binary64)

/-- Beyond all numbers, or a number whose leading digit is at some place or above. -/
def Reaches (low : Int) (x : Float) : Prop :=
  x.toModel.unpack = .infinity .positive ∨ ∃ high, Spans low high x

section

variable {a b c d low : Int} {x y : Float}

theorem lt_iff (x y : Float) : x < y ↔ UnpackedFloat.lt x.toModel.unpack y.toModel.unpack = true := by
  change decide (x.toModel < y.toModel) = true ↔ _
  rw [decide_eq_true_eq]
  rfl

theorem Spans.reaches (h : Spans a b x) : Reaches a x := Or.inr ⟨b, h⟩

namespace Reaches

theorem pos (h : Reaches a x) : 0.0 < x := by
  rw [lt_iff, unpack_zero]
  rcases h with hRead | ⟨_, m, e, hm, hRead, _⟩ <;> rw [hRead] <;> rfl

theorem mono (h : Reaches a x) (le : low ≤ a) : Reaches low x :=
  h.imp_right fun ⟨b, hSpans⟩ => ⟨b, hSpans.mono le (Int.le_refl b)⟩

/-- What is not below a number reaches its place. -/
theorem of_le (h : Spans a b x) (normal : -1021 < a) (le : x ≤ y) : Reaches a y := by
  obtain ⟨n, f, hn, hRead, hDigits, hLow, hHigh⟩ := h
  rw [le_iff, hRead] at le
  cases kRead : y.toModel.unpack with
  | notANumber => simp [kRead, UnpackedFloat.le, UnpackedFloat.compare] at le
  | infinity s =>
      cases s
      · simp [kRead, UnpackedFloat.le, UnpackedFloat.compare] at le
      · exact Or.inl kRead
  | zero s => simp [kRead, UnpackedFloat.le, UnpackedFloat.compare] at le
  | finite s m e hm =>
      cases s
      · simp [kRead, UnpackedFloat.le, UnpackedFloat.compare] at le
      · rw [kRead, le_finite_iff] at le
        have hStored := digits_of_unpack kRead
        exact Or.inr ⟨_, m, e, hm, kRead, by omega, by omega, Int.le_refl _⟩

/-- A rounded number is stored as it is, or as infinity. -/
theorem pack {u : UnpackedFloat} {m : Nat} {e : Int} {h : 0 < m} (rounded : u = .finite .positive m e h)
    (digits : m.log2 = 52) (hLow : low ≤ e + 53) (least : -1021 ≤ low) :
    Reaches low ⟨Float.Model.pack u⟩ := by
  have hStored := unpack_pack_finite .positive (e := e) h digits (by omega)
  rw [← rounded] at hStored
  split at hStored
  · exact Or.inr ⟨_, m, e, h, hStored.trans rounded, digits, hLow, Int.le_refl _⟩
  · exact Or.inl hStored

theorem roundWithAccuracy {m : Nat} {e : Int} (accuracy : Accuracy) (digits : 52 ≤ m.log2)
    (hLow : low ≤ m.log2 + 1 + e) (least : -1021 ≤ low) :
    Reaches low ⟨Float.Model.pack (UnpackedFloat.roundWithAccuracy binary64 .positive m e accuracy)⟩ := by
  obtain ⟨n, f, h, hRound, hDigits, hFrom, _⟩ :=
    roundWithAccuracy_eq .positive accuracy digits (e := e) (by omega)
  exact pack hRound hDigits (by omega) least

theorem round {m : Nat} {e : Int} (positive : 0 < m) (hLow : low ≤ m.log2 + 1 + e)
    (least : -1021 ≤ low) :
    Reaches low ⟨Float.Model.pack (UnpackedFloat.round binary64 .positive m e)⟩ := by
  obtain ⟨n, f, h, hRound, hDigits, hFrom, _⟩ := round_eq .positive positive (e := e) (by omega)
  exact pack hRound hDigits (by omega) least

theorem mul (h : Reaches a x) (k : Reaches c y) (least : -1021 ≤ a + c - 1) :
    Reaches (a + c - 1) (x * y) := by
  have hInfinite : (Float.Model.pack (.infinity .positive)).unpack = .infinity .positive :=
    unpack_pack_infinity .positive
  rw [mul_eq]
  rcases h with hRead | ⟨_, m, e, hm, hRead, hDigits, hLow, _⟩ <;>
    rcases k with kRead | ⟨_, n, f, hn, kRead, kDigits, kLow, _⟩ <;> rw [hRead, kRead]
  · exact Or.inl hInfinite
  · exact Or.inl hInfinite
  · exact Or.inl hInfinite
  · obtain ⟨hLeast, _⟩ := log2_mul_bounds hDigits kDigits
    rw [mul_finite]
    exact roundWithAccuracy .exact (by omega) (by omega) least

theorem add_within (h : Reaches a x) (k : Within c d y) (least : -1021 ≤ a) : Reaches a (x + y) := by
  rw [add_eq]
  rcases h with hRead | ⟨_, m, e, hm, hRead, hDigits, hLow, _⟩ <;>
    rcases k with ⟨t, kRead⟩ | ⟨n, f, hn, kRead, kDigits, _⟩ <;> rw [hRead, kRead]
  · exact Or.inl (unpack_pack_infinity .positive)
  · exact Or.inl (unpack_pack_infinity .positive)
  · exact pack rfl hDigits hLow least
  · have hSum := le_log2_shiftLeft_add hDigits (e - min e f).toNat (n <<< (f - min e f).toNat)
    rw [add_finite]
    exact round (Nat.add_pos_left (shiftLeft_pos hm _) _) (by omega) least

theorem ofNat {n : Nat} (positive : 0 < n) : Reaches 1 (Float.ofNat n) := by
  have hShifted := log2_shiftLeft positive 53
  rcases ofNat_cases positive with hSmall | hLarge
  · have hExact : Reaches 1 ⟨Float.Model.pack (UnpackedFloat.round binary64 .positive n 0)⟩ :=
      round positive (by omega) (by decide)
    rw [hSmall]
    exact hExact.mul spans_one.reaches (by decide)
  · rw [hLarge]
    exact roundWithAccuracy .exact (by omega) (by omega) (by decide)

/-- Every span of some length is a positive number of seconds. -/
theorem seconds {s : Nat} (positive : 0 < s) : Reaches (-29) (Span.seconds s : Float) := by
  change Reaches _ (Float.ofNat (s / 1000000000) + Float.ofNat (s % 1000000000) / 1e9)
  rcases Nat.eq_zero_or_pos (s / 1000000000) with hShort | hLong
  · exact (spans_seconds positive (by omega)).reaches
  · have hRest := (within_ofNat (s := s % 1000000000) (by omega)).div spans_billion (by decide) (by decide)
    exact ((ofNat hLong).add_within hRest (by decide)).mono (by decide)

end Reaches
end
end LoadFeedback.Binary64
