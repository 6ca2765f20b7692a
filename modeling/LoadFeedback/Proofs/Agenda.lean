import LoadFeedback.Simulation.Agenda

/-! An agenda gives out an earliest event. What was pending stays pending at most, and nothing becomes
pending but what is put down. -/
namespace LoadFeedback

theorem Slot.time_le_of_order {a b : Slot} (h : (order a b).isLE = true) : a.time ≤ b.time := by
  have hTime : compareOn Slot.time a b ≠ .gt := fun hGt => by
    simp [order, compareLex, hGt] at h
  exact Nat.compare_ne_gt.mp hTime

namespace Agenda

variable {ε : Type} {a rest : Agenda ε}

/-- The event is to come at the instant. -/
def Pending (a : Agenda ε) (time : Instant) (event : ε) : Prop :=
  ∃ ticket, a.events[(⟨time, ticket⟩ : Slot)]? = some event

theorem not_pending_empty (time : Instant) (event : ε) : ¬(empty : Agenda ε).Pending time event := by
  rintro ⟨ticket, h⟩
  simp [empty] at h

theorem pending_push {time later : Instant} {event other : ε}
    (h : (a.push later event).Pending time other) :
    (time = later ∧ other = event) ∨ a.Pending time other := by
  obtain ⟨ticket, hAt⟩ := h
  rw [push, Std.TreeMap.getElem?_insert] at hAt
  split at hAt
  · next hSlot =>
      have hEq := Std.LawfulEqCmp.eq_of_compare hSlot
      cases hEq
      cases hAt
      exact Or.inl ⟨rfl, rfl⟩
  · exact Or.inr ⟨ticket, hAt⟩

theorem pending_foldl_push {β : Type} {items : List β} {f : β → ε} {later time : Instant}
    {event : ε} (h : (items.foldl (fun a x => a.push later (f x)) a).Pending time event) :
    (time = later ∧ ∃ x ∈ items, event = f x) ∨ a.Pending time event := by
  induction items generalizing a with
  | nil => exact Or.inr h
  | cons x items ih =>
      rcases ih h with ⟨hTime, y, hy, hEvent⟩ | hPending
      · exact Or.inl ⟨hTime, y, List.mem_cons_of_mem _ hy, hEvent⟩
      · rcases pending_push hPending with ⟨hTime, hEvent⟩ | hOld
        · exact Or.inl ⟨hTime, x, List.mem_cons_self, hEvent⟩
        · exact Or.inr hOld

theorem mem_of_getElem? {slot : Slot} {event : ε} (h : a.events[slot]? = some event) :
    slot ∈ a.events := by
  rw [Std.TreeMap.mem_iff_isSome_getElem?, h]
  rfl

theorem le_of_minKey? {slot : Slot} (hMin : a.events.minKey? = some slot) {time : Instant} {event : ε}
    (h : a.Pending time event) : slot.time ≤ time := by
  obtain ⟨ticket, hAt⟩ := h
  have hLeast := (Std.TreeMap.minKey?_eq_some_iff_mem_and_forall.mp hMin).2 _ (mem_of_getElem? hAt)
  exact Slot.time_le_of_order hLeast

theorem pending_of_minKey? {slot : Slot} (hMin : a.events.minKey? = some slot) :
    ∃ event, a.events[slot]? = some event ∧ a.Pending slot.time event := by
  have hMem := (Std.TreeMap.minKey?_eq_some_iff_mem_and_forall.mp hMin).1
  rw [Std.TreeMap.mem_iff_isSome_getElem?] at hMem
  obtain ⟨event, hAt⟩ := Option.isSome_iff_exists.mp hMem
  exact ⟨event, hAt, slot.ticket, hAt⟩

theorem minKey?_ne_none {time : Instant} {event : ε} (h : a.Pending time event) :
    a.events.minKey? ≠ none := by
  obtain ⟨ticket, hAt⟩ := h
  intro hMin
  have hEmpty := Std.TreeMap.minKey?_eq_none_iff.mp hMin
  exact Std.TreeMap.isEmpty_iff_forall_not_mem.mp hEmpty _ (mem_of_getElem? hAt)

theorem popDue?_eq_some {now : Instant} {event : ε} (h : a.popDue? now = some (event, rest)) :
    ∃ time, a.Pending time event ∧ time ≤ now ∧
      ∀ later other, rest.Pending later other → a.Pending later other := by
  unfold popDue? at h
  split at h
  · cases h
  · next slot hMin =>
      obtain ⟨first, hAt, hFirst⟩ := pending_of_minKey? hMin
      split at h
      · next hDue =>
          rw [hAt] at h
          cases h
          refine ⟨slot.time, hFirst, hDue, ?_⟩
          rintro later other ⟨ticket, hLater⟩
          rw [Std.TreeMap.getElem?_erase] at hLater
          split at hLater
          · cases hLater
          · exact ⟨ticket, hLater⟩
      · cases h

theorem popDue?_eq_none {now : Instant} (h : a.popDue? now = none) {time : Instant} {event : ε}
    (hPending : a.Pending time event) : now < time := by
  unfold popDue? at h
  split at h
  · next hMin => exact absurd hMin (minKey?_ne_none hPending)
  · next slot hMin =>
      obtain ⟨first, hAt, _⟩ := pending_of_minKey? hMin
      split at h
      · simp [hAt] at h
      · next hAhead => exact Nat.lt_of_lt_of_le (Nat.lt_of_not_le hAhead) (le_of_minKey? hMin hPending)

theorem next?_eq_some {first : Instant} (h : a.next? = some first) :
    (∃ event, a.Pending first event) ∧ ∀ time event, a.Pending time event → first ≤ time := by
  obtain ⟨slot, hMin, rfl⟩ := Option.map_eq_some_iff.mp h
  obtain ⟨event, _, hFirst⟩ := pending_of_minKey? hMin
  exact ⟨⟨event, hFirst⟩, fun _ _ hPending => le_of_minKey? hMin hPending⟩

theorem next?_eq_none (h : a.next? = none) (time : Instant) (event : ε) : ¬a.Pending time event :=
  fun hPending => minKey?_ne_none hPending (Option.map_eq_none_iff.mp h)

end Agenda
end LoadFeedback
