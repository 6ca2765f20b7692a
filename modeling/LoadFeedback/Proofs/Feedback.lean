import LoadFeedback.Packet

/-! The more severe of two fields is their maximum, so the links of a path may stamp a packet in any
order. A packet keeps all its other fields. -/
namespace LoadFeedback

namespace FeedbackField

theorem le_iff {a b : FeedbackField} : a ≤ b ↔ a.value.toNat ≤ b.value.toNat := UInt16.le_iff_toNat_le

theorem lt_iff {a b : FeedbackField} : a < b ↔ a.value.toNat < b.value.toNat := UInt16.lt_iff_toNat_lt

theorem ext_toNat {a b : FeedbackField} (h : a.value.toNat = b.value.toNat) : a = b := by
  obtain ⟨a⟩ := a
  obtain ⟨b⟩ := b
  exact congrArg mk (UInt16.toNat_inj.mp h)

theorem toNat_severest (a b : FeedbackField) :
    (a.severest b).value.toNat = max a.value.toNat b.value.toNat := by
  unfold severest
  split
  · next h =>
      rw [lt_iff] at h
      omega
  · next h =>
      rw [lt_iff] at h
      omega

theorem severest_cases (a b : FeedbackField) : a.severest b = a ∨ a.severest b = b := by
  unfold severest
  split
  · exact Or.inr rfl
  · exact Or.inl rfl

theorem le_severest_left (a b : FeedbackField) : a ≤ a.severest b := by
  rw [le_iff, toNat_severest]
  exact Nat.le_max_left _ _

theorem le_severest_right (a b : FeedbackField) : b ≤ a.severest b := by
  rw [le_iff, toNat_severest]
  exact Nat.le_max_right _ _

theorem severest_comm (a b : FeedbackField) : a.severest b = b.severest a := by
  apply ext_toNat
  rw [toNat_severest, toNat_severest, Nat.max_comm]

theorem severest_assoc (a b c : FeedbackField) :
    (a.severest b).severest c = a.severest (b.severest c) := by
  apply ext_toNat
  simp only [toNat_severest, Nat.max_assoc]

theorem severest_right_comm (a b c : FeedbackField) :
    (a.severest b).severest c = (a.severest c).severest b := by
  rw [severest_assoc, severest_comm b, ← severest_assoc]

theorem le_trans {a b c : FeedbackField} (h : a ≤ b) (k : b ≤ c) : a ≤ c :=
  le_iff.mpr (Nat.le_trans (le_iff.mp h) (le_iff.mp k))

/-- The most severe of a field and others is one of them, and none of them is more severe. -/
theorem foldl_severest_mem (f : FeedbackField) (fs : List FeedbackField) :
    fs.foldl severest f ∈ f :: fs ∧ ∀ g ∈ f :: fs, g ≤ fs.foldl severest f := by
  induction fs generalizing f with
  | nil => simp [le_iff]
  | cons g fs ih =>
      obtain ⟨hMem, hMost⟩ := ih (f.severest g)
      have hFirst := hMost _ List.mem_cons_self
      refine ⟨?_, ?_⟩
      · rcases List.mem_cons.mp hMem with hEq | hRest
        · rw [List.foldl_cons, hEq]
          rcases severest_cases f g with hLeft | hRight
          · simp [hLeft]
          · simp [hRight]
        · simp [hRest]
      · intro h hh
        rcases List.mem_cons.mp hh with rfl | hh
        · exact le_trans (le_severest_left h g) hFirst
        · rcases List.mem_cons.mp hh with rfl | hh
          · exact le_trans (le_severest_right f h) hFirst
          · exact hMost h (List.mem_cons_of_mem _ hh)

@[simp] theorem code?_ofCode (code : LoadCode) : (ofCode code).code? = some code := by
  cases code <;> rfl

/-- Links may stamp in any order. -/
theorem foldl_severest_perm {fs gs : List FeedbackField} (h : fs.Perm gs) (f : FeedbackField) :
    fs.foldl severest f = gs.foldl severest f :=
  h.foldl_eq' (fun b _ c _ a => severest_right_comm a b c) f

theorem code?_severest {a b : FeedbackField} (ha : a.code? ≠ none) (hb : b.code? ≠ none) :
    (a.severest b).code? ≠ none := by
  rcases severest_cases a b with h | h <;> rwa [h]

end FeedbackField

namespace Packet

@[simp] theorem stamped_of_data {p : Packet} (h : p.isData = true) (f : FeedbackField) :
    p.stamped f = p.withFeedback (p.feedback.severest f) :=
  if_pos h

@[simp] theorem stamped_of_ack {p : Packet} (h : p.isData = false) (f : FeedbackField) :
    p.stamped f = p := by
  simp [stamped, h]

/-- A link changes nothing of a packet but its feedback. -/
theorem stamped_eq (p : Packet) (f : FeedbackField) :
    p.stamped f = p.withFeedback (p.stamped f).feedback := by
  unfold stamped
  split <;> rfl

@[simp] theorem isData_stamped (p : Packet) (f : FeedbackField) :
    (p.stamped f).isData = p.isData := by
  rw [stamped_eq]
  rfl

end Packet
end LoadFeedback
