import LoadFeedback.Receiver.Assembly

/-! The assembly holds exactly the numbers that were recorded, each once, and divides them at the
least number that is still missing. -/
namespace LoadFeedback.Assembly

/-- The assembly after the given numbers have arrived, in whatever order and however often. -/
structure Holds (a : Assembly) (received : List Nat) : Prop where
  below : ∀ s < a.missing, s ∈ received
  missing_notMem : a.missing ∉ received
  mem_above : ∀ s, s ∈ a.above ↔ a.missing < s ∧ s ∈ received
  rising : a.above.Pairwise (· < ·)

theorem holds_empty : empty.Holds [] := by
  constructor <;> simp [empty]

theorem place_rising {seq : Nat} {above : List Nat} (rising : above.Pairwise (· < ·))
    (isNew : seq ∉ above) : (place seq above).Pairwise (· < ·) := by
  induction above with
  | nil => exact List.pairwise_singleton _ _
  | cons s rest ih =>
      have ⟨hFirst, hRest⟩ := List.pairwise_cons.mp rising
      have ⟨hNe, hNew⟩ : seq ≠ s ∧ seq ∉ rest := by simpa using isNew
      rw [place]
      split
      · next hBefore =>
          refine List.pairwise_cons.mpr ⟨List.forall_mem_cons.mpr ⟨hBefore, fun t ht => ?_⟩, rising⟩
          exact Nat.lt_trans hBefore (hFirst t ht)
      · refine List.pairwise_cons.mpr ⟨fun t ht => ?_, ih hRest hNew⟩
        rcases mem_place.mp ht with rfl | ht
        · omega
        · exact hFirst t ht

theorem holds_of_missing {missing : Nat} {above received : List Nat}
    (below : ∀ s < missing, s ∈ received) (missing_notMem : missing ∉ received)
    (mem_above : ∀ s, s ∈ above ↔ missing ≤ s ∧ s ∈ received)
    (rising : above.Pairwise (· < ·)) : (Assembly.mk missing above).Holds received := by
  refine ⟨below, missing_notMem, fun s => (mem_above s).trans (and_congr_left fun hs => ?_), rising⟩
  have hNe : missing ≠ s := fun hEq => missing_notMem (hEq ▸ hs)
  exact ⟨fun hLe => Nat.lt_of_le_of_ne hLe hNe, Nat.le_of_lt⟩

/-- The numbers that follow without a gap are no longer above. The induction is on the list, whose
first number is the only one that can be the next one missing. -/
theorem holds_advance {missing : Nat} {above received : List Nat}
    (below : ∀ s < missing, s ∈ received)
    (mem_above : ∀ s, s ∈ above ↔ missing ≤ s ∧ s ∈ received)
    (rising : above.Pairwise (· < ·)) : (advance missing above).Holds received := by
  induction above generalizing missing with
  | nil =>
      have hMissing : missing ∉ received := fun h =>
        List.not_mem_nil ((mem_above missing).mpr ⟨Nat.le_refl _, h⟩)
      exact holds_of_missing below hMissing mem_above rising
  | cons s rest ih =>
      have ⟨hFirst, hRest⟩ := List.pairwise_cons.mp rising
      have ⟨hLe, hReceived⟩ := (mem_above s).mp List.mem_cons_self
      rw [advance]
      split
      · next hNext =>
          subst hNext
          refine ih (fun t ht => ?_) (fun t => ⟨fun ht => ?_, fun ⟨hLt, ht⟩ => ?_⟩) hRest
          · rcases Nat.lt_succ_iff_lt_or_eq.mp ht with ht | rfl
            · exact below t ht
            · exact hReceived
          · exact ⟨hFirst t ht, ((mem_above t).mp (List.mem_cons_of_mem _ ht)).2⟩
          · have hMem := (mem_above t).mpr ⟨Nat.le_of_lt hLt, ht⟩
            exact (List.mem_cons.mp hMem).resolve_left (Nat.ne_of_gt hLt)
      · next hGap =>
          refine holds_of_missing below (fun h => ?_) mem_above rising
          rcases List.mem_cons.mp ((mem_above missing).mpr ⟨Nat.le_refl _, h⟩) with rfl | h
          · exact hGap rfl
          · have hLt := hFirst missing h
            omega

namespace Holds

variable {a : Assembly} {received : List Nat}

theorem contains_iff (h : a.Holds received) (s : Nat) : a.contains s = true ↔ s ∈ received := by
  rw [contains, Bool.or_eq_true, decide_eq_true_eq, List.contains_iff_mem, h.mem_above]
  refine ⟨fun hs => hs.elim (h.below s) (·.2), fun hs => ?_⟩
  rcases Nat.lt_trichotomy s a.missing with hLt | rfl | hGt
  · exact Or.inl hLt
  · exact absurd hs h.missing_notMem
  · exact Or.inr ⟨hGt, hs⟩

/-- No number that has not arrived is below the first missing one. -/
theorem missing_le (h : a.Holds received) {s : Nat} (hs : s ∉ received) : a.missing ≤ s :=
  Nat.le_of_not_lt fun hLt => hs (h.below s hLt)

/-- A number that arrives again changes nothing, one above the gap is kept for later, and the missing
one closes the gap. -/
theorem record (h : a.Holds received) (seq : Nat) : (a.record seq).Holds (received ++ [seq]) := by
  have hMem (s : Nat) : s ∈ received ++ [seq] ↔ s ∈ received ∨ s = seq := by simp
  unfold Assembly.record
  split
  · next hOld =>
      have hSame (s : Nat) : s ∈ received ++ [seq] ↔ s ∈ received := by
        rw [hMem]
        exact or_iff_left_of_imp fun hEq => hEq ▸ (h.contains_iff seq).mp hOld
      refine ⟨fun s hs => ?_, ?_, fun s => ?_, h.rising⟩
      · exact (hSame s).mpr (h.below s hs)
      · exact fun hs => h.missing_notMem ((hSame _).mp hs)
      · rw [hSame, h.mem_above]
  · next hNew =>
      have hAbsent : seq ∉ received := fun hs => hNew ((h.contains_iff seq).mpr hs)
      have hBelow (s : Nat) (hs : s < a.missing) : s ∈ received ++ [seq] :=
        (hMem s).mpr (Or.inl (h.below s hs))
      split
      · next hLater =>
          refine ⟨hBelow, ?_, fun s => ?_, place_rising h.rising ?_⟩
          · rw [hMem]
            exact fun hs => hs.elim h.missing_notMem (Nat.ne_of_lt hLater)
          · rw [mem_place, hMem, h.mem_above]
            constructor
            · rintro (rfl | ⟨hLt, hs⟩)
              · exact ⟨hLater, Or.inr rfl⟩
              · exact ⟨hLt, Or.inl hs⟩
            · rintro ⟨hLt, hs | rfl⟩
              · exact Or.inr ⟨hLt, hs⟩
              · exact Or.inl rfl
          · exact fun hs => hAbsent ((h.mem_above seq).mp hs).2
      · next hGap =>
          have hSeq : seq = a.missing := Nat.le_antisymm (Nat.le_of_not_lt hGap) (h.missing_le hAbsent)
          subst hSeq
          refine holds_advance (fun s hs => ?_) (fun s => ?_) h.rising
          · rcases Nat.lt_succ_iff_lt_or_eq.mp hs with hs | rfl
            · exact hBelow s hs
            · exact (hMem _).mpr (Or.inr rfl)
          · rw [h.mem_above, hMem]
            refine and_congr_right fun hLt => (or_iff_left ?_).symm
            omega

/-- The more arrives, the higher is the first missing number. -/
theorem missing_mono (h : a.Holds received) {b : Assembly} {more : List Nat}
    (k : b.Holds (received ++ more)) : a.missing ≤ b.missing :=
  h.missing_le fun hs => k.missing_notMem (List.mem_append_left more hs)

end Holds
end LoadFeedback.Assembly
