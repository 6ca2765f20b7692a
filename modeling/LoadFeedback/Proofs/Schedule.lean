import Mathlib.Data.List.Nodup
import LoadFeedback.Timer.Schedule

/-! A schedule is a map from timers to deadlines that gives out an earliest one. Which of several
timers of one instant comes out first is left open, so what is proved from these lemmas holds for
every order among them. -/
namespace LoadFeedback

theorem Alarm.deadline_le_of_precedes {a b : Alarm} (h : a.precedes b = true) :
    a.deadline ≤ b.deadline := by
  unfold precedes at h
  split at h
  · next hEq => exact Nat.le_of_eq hEq
  · exact Nat.le_of_lt (of_decide_eq_true h)

theorem Alarm.deadline_le_of_not_precedes {a b : Alarm} (h : a.precedes b = false) :
    b.deadline ≤ a.deadline := by
  unfold precedes at h
  split at h
  · next hEq => exact Nat.le_of_eq hEq.symm
  · exact Nat.le_of_not_lt (of_decide_eq_false h)

/-- A timer that takes the place of its earlier alarm is armed once. -/
theorem Alarm.nodup_cons_filter {alarms : List Alarm} (unique : (alarms.map (·.key)).Nodup) (a : Alarm) :
    ((a :: alarms.filter (·.key ≠ a.key)).map (·.key)).Nodup := by
  rw [List.map_cons, List.nodup_cons]
  refine ⟨fun hMem => ?_, unique.sublist (List.filter_sublist.map _)⟩
  obtain ⟨b, hb, hKey⟩ := List.mem_map.mp hMem
  exact of_decide_eq_true (List.mem_filter.mp hb).2 hKey

/-- Where each timer is armed once, its deadline is found by its key. -/
theorem Alarm.mem_iff_find? {alarms : List Alarm} (unique : (alarms.map (·.key)).Nodup) (a : Alarm) :
    a ∈ alarms ↔ (alarms.find? (·.key = a.key)).map (·.deadline) = some a.deadline := by
  constructor
  · intro hMem
    cases hFind : alarms.find? (·.key = a.key) with
    | none => simpa using List.find?_eq_none.mp hFind a hMem
    | some b =>
        have hKey : b.key = a.key := by simpa using List.find?_some hFind
        rw [List.inj_on_of_nodup_map unique (List.mem_of_find?_eq_some hFind) hMem hKey]
        rfl
  · intro hDeadline
    obtain ⟨b, hFind, hEq⟩ := Option.map_eq_some_iff.mp hDeadline
    have hKey : b.key = a.key := by simpa using List.find?_some hFind
    have hSame : b = a := by
      cases a
      cases b
      simp_all
    exact hSame ▸ List.mem_of_find?_eq_some hFind

namespace Schedule

/-- The alarms stand in the order of their deadlines, and each timer has one at most. -/
structure Ordered (s : Schedule) : Prop where
  rising : s.alarms.Pairwise (·.deadline ≤ ·.deadline)
  unique : (s.alarms.map (·.key)).Nodup

/-- The alarm is due, and no other one is earlier. -/
structure MayExpire (s : Schedule) (now : Instant) (a : Alarm) : Prop where
  armed : a ∈ s.alarms
  due : a.deadline ≤ now
  earliest : ∀ b ∈ s.alarms, a.deadline ≤ b.deadline

theorem rising_place {a : Alarm} {alarms : List Alarm}
    (rising : alarms.Pairwise (·.deadline ≤ ·.deadline)) :
    (place a alarms).Pairwise (·.deadline ≤ ·.deadline) := by
  induction alarms with
  | nil => exact List.pairwise_singleton _ _
  | cons b rest ih =>
      obtain ⟨hFirst, hRest⟩ := List.pairwise_cons.mp rising
      rw [place]
      split
      · next hBefore =>
          have hLe := Alarm.deadline_le_of_precedes hBefore
          refine List.pairwise_cons.mpr ⟨List.forall_mem_cons.mpr ⟨hLe, fun c hc => ?_⟩, rising⟩
          exact Nat.le_trans hLe (hFirst c hc)
      · next hBehind =>
          have hLe := Alarm.deadline_le_of_not_precedes (Bool.eq_false_iff.mpr hBehind)
          refine List.pairwise_cons.mpr ⟨fun c hc => ?_, ih hRest⟩
          rcases mem_place.mp hc with rfl | hc
          · exact hLe
          · exact hFirst c hc

namespace Ordered

variable {s : Schedule}

theorem cancel (h : s.Ordered) (key : TimerKey) : (s.cancel key).Ordered where
  rising := h.rising.filter _
  unique := h.unique.sublist (List.filter_sublist.map _)

theorem set (h : s.Ordered) (key : TimerKey) (deadline : Instant) : (s.set key deadline).Ordered where
  rising := rising_place (h.cancel key).rising
  unique := by
    have hKeys := (perm_place ⟨key, deadline⟩ (s.cancel key).alarms).map (·.key)
    rw [Schedule.set, hKeys.nodup_iff]
    exact Alarm.nodup_cons_filter h.unique ⟨key, deadline⟩

theorem assign (h : s.Ordered) (key : TimerKey) (deadline : Option Instant) :
    (s.assign key deadline).Ordered := by
  cases deadline with
  | none => exact h.cancel key
  | some deadline => exact h.set key deadline

end Ordered

theorem ordered_empty : empty.Ordered := ⟨.nil, List.nodup_nil⟩

theorem find?_place_of_ne {a : Alarm} {key : TimerKey} (h : a.key ≠ key) (alarms : List Alarm) :
    (place a alarms).find? (·.key = key) = alarms.find? (·.key = key) := by
  induction alarms with
  | nil => simp [place, h]
  | cons b rest ih =>
      rw [place]
      split
      · simp [h]
      · rw [List.find?_cons, List.find?_cons, ih]

@[simp] theorem deadline?_empty (key : TimerKey) : empty.deadline? key = none := rfl

@[simp] theorem deadline?_cancel (s : Schedule) (key other : TimerKey) :
    (s.cancel key).deadline? other = if other = key then none else s.deadline? other := by
  unfold deadline? cancel
  split
  · next hEq => simp [hEq]
  · next hNe =>
      rw [List.find?_filter]
      congr 2
      funext a
      by_cases hKey : a.key = other
      · simp [hKey, hNe]
      · simp [hKey]

@[simp] theorem deadline?_set (s : Schedule) (key other : TimerKey) (deadline : Instant) :
    (s.set key deadline).deadline? other =
      if other = key then some deadline else s.deadline? other := by
  split
  · next hEq =>
      subst hEq
      have hMem : ⟨other, deadline⟩ ∈ (s.set other deadline).alarms := mem_set.mpr (Or.inl rfl)
      unfold deadline?
      cases hFind : (s.set other deadline).alarms.find? (·.key = other) with
      | none => simpa using List.find?_eq_none.mp hFind _ hMem
      | some a =>
          have hKey : a.key = other := by simpa using List.find?_some hFind
          rcases mem_set.mp (List.mem_of_find?_eq_some hFind) with rfl | ⟨_, hNe⟩
          · rfl
          · exact absurd hKey hNe
  · next hNe =>
      have hOther := deadline?_cancel s key other
      rw [if_neg hNe] at hOther
      rw [← hOther, deadline?, deadline?, set, find?_place_of_ne (Ne.symm hNe)]

@[simp] theorem deadline?_assign (s : Schedule) (key other : TimerKey) (deadline : Option Instant) :
    (s.assign key deadline).deadline? other =
      if other = key then deadline else s.deadline? other := by
  cases deadline with
  | none => exact deadline?_cancel s key other
  | some deadline => exact deadline?_set s key other deadline

namespace Ordered

variable {s : Schedule}

/-- The armed timers are those with a deadline. -/
theorem mem_iff (h : s.Ordered) (a : Alarm) : a ∈ s.alarms ↔ s.deadline? a.key = some a.deadline :=
  Alarm.mem_iff_find? h.unique a

theorem head_le (h : s.Ordered) {a : Alarm} (hHead : s.alarms.head? = some a) :
    ∀ b ∈ s.alarms, a.deadline ≤ b.deadline := by
  obtain ⟨rest, hList⟩ := List.head?_eq_some_iff.mp hHead
  have hRising := h.rising
  rw [hList] at hRising ⊢
  exact List.forall_mem_cons.mpr ⟨Nat.le_refl _, (List.pairwise_cons.mp hRising).1⟩

/-- What comes out is an earliest alarm, and its timer is disarmed. -/
theorem popDue?_eq_some (h : s.Ordered) {now : Instant} {key : TimerKey} {rest : Schedule}
    (hPop : s.popDue? now = some (key, rest)) :
    ∃ a, s.MayExpire now a ∧ a.key = key ∧ rest = s.cancel key := by
  cases hList : s.alarms with
  | nil => simp [popDue?, hList] at hPop
  | cons a tail =>
      simp only [popDue?, hList] at hPop
      split at hPop
      · next hDue =>
          cases hPop
          have hFirst := h.head_le (a := a) (by rw [hList]; rfl)
          refine ⟨a, ⟨by simp [hList], hDue, hFirst⟩, rfl, ?_⟩
          have hUnique := h.unique
          rw [hList, List.map_cons, List.nodup_cons] at hUnique
          rw [Schedule.cancel, hList, List.filter_cons_of_neg (by simp)]
          congr 1
          refine (List.filter_eq_self.mpr fun b hb => ?_).symm
          refine decide_eq_true fun hKey => hUnique.1 ?_
          exact hKey ▸ List.mem_map_of_mem hb
      · cases hPop

theorem popDue?_eq_none (h : s.Ordered) {now : Instant} (hPop : s.popDue? now = none) :
    ∀ a ∈ s.alarms, now < a.deadline := by
  intro a ha
  cases hList : s.alarms with
  | nil => simp [hList] at ha
  | cons b tail =>
      simp only [popDue?, hList] at hPop
      split at hPop
      · cases hPop
      · next hAhead =>
          have hFirst := h.head_le (a := b) (by rw [hList]; rfl) a ha
          exact Nat.lt_of_lt_of_le (Nat.lt_of_not_le hAhead) hFirst

theorem next?_eq_some (h : s.Ordered) {first : Instant} (hNext : s.next? = some first) :
    ∀ a ∈ s.alarms, first ≤ a.deadline := by
  obtain ⟨a, hHead, rfl⟩ := Option.map_eq_some_iff.mp hNext
  exact h.head_le hHead

end Ordered

theorem exists_of_next? {s : Schedule} {first : Instant} (h : s.next? = some first) :
    ∃ a ∈ s.alarms, a.deadline = first := by
  obtain ⟨a, hHead, hDeadline⟩ := Option.map_eq_some_iff.mp h
  exact ⟨a, List.mem_of_head? hHead, hDeadline⟩

theorem next?_eq_none {s : Schedule} (h : s.next? = none) : s.alarms = [] := by
  simpa [next?] using h

end Schedule
end LoadFeedback
