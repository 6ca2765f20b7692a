import LoadFeedback.Proofs.Agenda
import Mathlib.Data.List.Sort

/-! The events of one kind, in the order in which they come out. Where each of them is put down for no
earlier instant than those before it, they form a queue: what is put down last comes out last. -/
namespace LoadFeedback

theorem Slot.order_lt {a b : Slot} (hTime : a.time ≤ b.time) (hTicket : a.ticket < b.ticket) :
    order a b = .lt := by
  have hTurn : compareOn Slot.ticket a b = .lt := Nat.compare_eq_lt.mpr hTicket
  rcases Nat.lt_or_eq_of_le hTime with hLt | hEq
  · have hBefore : compareOn Slot.time a b = .lt := Nat.compare_eq_lt.mpr hLt
    simp [order, compareLex, hBefore]
  · have hSame : compareOn Slot.time a b = .eq := Nat.compare_eq_eq.mpr hEq
    simp [order, compareLex, hSame, hTurn]

/-- The slot of the first item comes before the slot of the second one. -/
def Slot.Before {β : Type} (x y : Slot × β) : Prop := order x.1 y.1 = .lt

namespace Slot.Before

variable {β : Type} {x y : Slot × β}

theorem irrefl (x : Slot × β) : ¬Before x x := by
  intro h
  have hSame : order x.1 x.1 = .eq := Std.ReflCmp.compare_self
  cases hSame.symm.trans h

theorem asymm (h : Before x y) : ¬Before y x := by
  intro k
  have hGt := Std.OrientedCmp.gt_of_lt h
  rw [show order y.1 x.1 = .lt from k] at hGt
  cases hGt

instance : Std.Irrefl (α := Slot × β) Before := ⟨irrefl⟩

instance : Std.Antisymm (α := Slot × β) Before := ⟨fun _ _ h k => absurd k h.asymm⟩

end Slot.Before

namespace Agenda

variable {ε β : Type} {a rest : Agenda ε} {f : ε → Option β}

/-- Every ticket was given out. -/
def Numbered (a : Agenda ε) : Prop := ∀ slot ∈ a.events, slot.ticket < a.nextTicket

theorem numbered_empty : (empty : Agenda ε).Numbered := by
  intro slot hSlot
  simp [empty] at hSlot

theorem Numbered.push (h : a.Numbered) (time : Instant) (event : ε) :
    (a.push time event).Numbered := by
  intro slot hSlot
  rcases Std.TreeMap.mem_insert.mp hSlot with hNew | hOld
  · have hEq := Std.LawfulEqCmp.eq_of_compare hNew
    subst hEq
    exact Nat.lt_succ_self a.nextTicket
  · exact Nat.lt_succ_of_lt (h slot hOld)

theorem Numbered.foldl_push {γ : Type} (h : a.Numbered) (items : List γ) (time : Instant)
    (event : γ → ε) : (items.foldl (fun a x => a.push time (event x)) a).Numbered := by
  induction items generalizing a with
  | nil => exact h
  | cons x items ih => exact ih (h.push time (event x))

/-- The events of a kind with their slots, the first one first. -/
def timed (f : ε → Option β) (a : Agenda ε) : List (Slot × β) :=
  a.events.toList.filterMap fun x => (f x.2).map (Prod.mk x.1)

/-- The events of a kind, the first one first. -/
def select (f : ε → Option β) (a : Agenda ε) : List β := (timed f a).map (·.2)

theorem mem_timed {slot : Slot} {b : β} :
    (slot, b) ∈ timed f a ↔ ∃ event, a.events[slot]? = some event ∧ f event = some b := by
  rw [timed, List.mem_filterMap]
  constructor
  · rintro ⟨⟨place, event⟩, hMem, hEvent⟩
    obtain ⟨b, hSome, hEq⟩ := Option.map_eq_some_iff.mp hEvent
    cases hEq
    exact ⟨event, Std.TreeMap.mem_toList_iff_getElem?_eq_some.mp hMem, hSome⟩
  · rintro ⟨event, hAt, hSome⟩
    exact ⟨(slot, event), Std.TreeMap.mem_toList_iff_getElem?_eq_some.mpr hAt, by simp [hSome]⟩

theorem mem_select {b : β} :
    b ∈ select f a ↔ ∃ time event, a.Pending time event ∧ f event = some b := by
  rw [select, List.mem_map]
  constructor
  · rintro ⟨⟨slot, b⟩, hMem, rfl⟩
    obtain ⟨event, hAt, hSome⟩ := mem_timed.mp hMem
    exact ⟨slot.time, event, ⟨slot.ticket, hAt⟩, hSome⟩
  · rintro ⟨time, event, ⟨ticket, hAt⟩, hSome⟩
    exact ⟨(⟨time, ticket⟩, b), mem_timed.mpr ⟨event, hAt, hSome⟩, rfl⟩

theorem timed_sorted (f : ε → Option β) (a : Agenda ε) : (timed f a).Pairwise Slot.Before := by
  refine List.Pairwise.filterMap _ ?_ Std.TreeMap.ordered_keys_toList
  intro x y hBefore b hb c hc
  obtain ⟨_, _, rfl⟩ := Option.map_eq_some_iff.mp hb
  obtain ⟨_, _, rfl⟩ := Option.map_eq_some_iff.mp hc
  exact hBefore

theorem getElem?_push (h : a.Numbered) (time : Instant) (event : ε) (slot : Slot) (other : ε) :
    (a.push time event).events[slot]? = some other ↔
      a.events[slot]? = some other ∨ (slot = ⟨time, a.nextTicket⟩ ∧ other = event) := by
  rw [push, Std.TreeMap.getElem?_insert]
  split
  · next hSlot =>
      have hEq := Std.LawfulEqCmp.eq_of_compare hSlot
      subst hEq
      have hFree (old : ε) : a.events[(⟨time, a.nextTicket⟩ : Slot)]? ≠ some old := fun hOld =>
        Nat.lt_irrefl _ (h _ (mem_of_getElem? hOld))
      simp [hFree, eq_comm]
  · next hSlot =>
      have hNe : slot ≠ ⟨time, a.nextTicket⟩ := by
        rintro rfl
        exact hSlot Std.ReflCmp.compare_self
      simp [hNe]

/-- An event of another kind leaves no trace among those of this kind. -/
theorem select_push_none (h : a.Numbered) {event : ε} (hKind : f event = none) (time : Instant) :
    select f (a.push time event) = select f a := by
  have hSame : timed f (a.push time event) = timed f a := by
    refine (timed_sorted f _).eq_of_mem_iff (timed_sorted f a) ?_
    rintro ⟨slot, b⟩
    simp only [mem_timed, getElem?_push h]
    constructor
    · rintro ⟨other, hOld | ⟨_, rfl⟩, hSome⟩
      · exact ⟨other, hOld, hSome⟩
      · rw [hKind] at hSome
        cases hSome
    · rintro ⟨other, hOld, hSome⟩
      exact ⟨other, Or.inl hOld, hSome⟩
  rw [select, hSame, select]

/-- An event that is put down for no earlier instant than the others of its kind comes out after
them. -/
theorem select_push (h : a.Numbered) {event : ε} {b : β} (hKind : f event = some b) {time : Instant}
    (last : ∀ other later, a.Pending later other → (f other).isSome → later ≤ time) :
    select f (a.push time event) = select f a ++ [b] := by
  have hNew : timed f (a.push time event) = timed f a ++ [(⟨time, a.nextTicket⟩, b)] := by
    refine (timed_sorted f _).eq_of_mem_iff ?_ ?_
    · refine List.pairwise_append.mpr ⟨timed_sorted f a, List.pairwise_singleton _ _, ?_⟩
      rintro ⟨slot, c⟩ hOld y hy
      rw [List.mem_singleton.mp hy]
      obtain ⟨other, hAt, hSome⟩ := mem_timed.mp hOld
      exact Slot.order_lt (last other slot.time ⟨slot.ticket, hAt⟩ (by simp [hSome]))
        (h slot (mem_of_getElem? hAt))
    · rintro ⟨slot, c⟩
      simp only [List.mem_append, List.mem_singleton, mem_timed, getElem?_push h, Prod.mk.injEq]
      constructor
      · rintro ⟨other, hOld | ⟨rfl, rfl⟩, hSome⟩
        · exact Or.inl ⟨other, hOld, hSome⟩
        · rw [hKind] at hSome
          cases hSome
          exact Or.inr ⟨rfl, rfl⟩
      · rintro (⟨other, hOld, hSome⟩ | ⟨rfl, rfl⟩)
        · exact ⟨other, Or.inl hOld, hSome⟩
        · exact ⟨event, Or.inr ⟨rfl, rfl⟩, hKind⟩
  rw [select, hNew, List.map_append]
  rfl

theorem popDue?_slot {now : Instant} {event : ε} (h : a.popDue? now = some (event, rest)) :
    ∃ slot, a.events.minKey? = some slot ∧ slot.time ≤ now ∧ a.events[slot]? = some event ∧
      rest = { a with events := a.events.erase slot } := by
  unfold popDue? at h
  split at h
  · cases h
  · next slot hMin =>
      split at h
      · next hDue =>
          obtain ⟨first, hAt, hEq⟩ := Option.map_eq_some_iff.mp h
          cases hEq
          exact ⟨slot, hMin, hDue, hAt, rfl⟩
      · cases h

theorem Numbered.popDue? (h : a.Numbered) {now : Instant} {event : ε}
    (due : a.popDue? now = some (event, rest)) : rest.Numbered := by
  obtain ⟨slot, _, _, _, rfl⟩ := popDue?_slot due
  exact fun other hOther => h other (Std.TreeMap.mem_of_mem_erase hOther)

/-- An event that comes out stood before all others of its kind. -/
theorem timed_popDue? {now : Instant} {event : ε} (due : a.popDue? now = some (event, rest)) :
    ∃ slot, slot.time ≤ now ∧
      timed f a = (f event).toList.map (Prod.mk slot) ++ timed f rest := by
  obtain ⟨first, hMin, hDue, hFirst, rfl⟩ := popDue?_slot due
  have hLeast := (Std.TreeMap.minKey?_eq_some_iff_mem_and_forall.mp hMin).2
  have hRest (slot : Slot) (other : ε) : (a.events.erase first)[slot]? = some other ↔
      slot ≠ first ∧ a.events[slot]? = some other := by
    rw [Std.TreeMap.getElem?_erase]
    by_cases hSlot : slot = first
    · simp [hSlot, Std.ReflCmp.compare_self]
    · have hNe : ¬Slot.order first slot = .eq := fun hEq =>
        hSlot (Std.LawfulEqCmp.eq_of_compare hEq).symm
      simp [hSlot, hNe]
  refine ⟨first, hDue, (timed_sorted f a).eq_of_mem_iff ?_ ?_⟩
  · refine List.pairwise_append.mpr ⟨by cases f event <;> simp, timed_sorted f _, ?_⟩
    intro x hx y hy
    obtain ⟨b, _, rfl⟩ := List.mem_map.mp hx
    obtain ⟨other, hAt, _⟩ := mem_timed.mp hy
    obtain ⟨hNe, hOld⟩ := (hRest y.1 other).mp hAt
    have hLe := hLeast y.1 (mem_of_getElem? hOld)
    rw [Slot.Before]
    cases hOrder : Slot.order first y.1 with
    | lt => rfl
    | eq => exact absurd (Std.LawfulEqCmp.eq_of_compare hOrder).symm hNe
    | gt => simp [hOrder] at hLe
  · rintro ⟨slot, b⟩
    simp only [List.mem_append, mem_timed, hRest, List.mem_map, Option.mem_toList,
      Prod.mk.injEq]
    constructor
    · rintro ⟨other, hAt, hSome⟩
      by_cases hSlot : slot = first
      · subst hSlot
        rw [hFirst] at hAt
        cases hAt
        exact Or.inl ⟨b, hSome, rfl, rfl⟩
      · exact Or.inr ⟨other, ⟨hSlot, hAt⟩, hSome⟩
    · rintro (⟨b, hSome, rfl, rfl⟩ | ⟨other, ⟨_, hAt⟩, hSome⟩)
      · exact ⟨event, hFirst, hSome⟩
      · exact ⟨other, hAt, hSome⟩

/-- The event that comes out was the first one of its kind. -/
theorem select_popDue? {now : Instant} {event : ε} (due : a.popDue? now = some (event, rest)) :
    select f a = (f event).toList ++ select f rest := by
  obtain ⟨slot, _, hTimed⟩ := timed_popDue? (f := f) due
  rw [select, hTimed, List.map_append, List.map_map, select]
  cases f event <;> rfl

end Agenda
end LoadFeedback
