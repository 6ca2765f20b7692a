import LoadFeedback.Timer

/-! A timetable is determined by its deadlines, and every operation is described by what it does to
them. A component has nothing left to deliver once all its deadlines lie ahead. -/
namespace LoadFeedback.Timetable

theorem eq_of_deadline? {t u : Timetable}
    (h : ∀ timer, t.deadline? timer = u.deadline? timer) : t = u := by
  obtain ⟨sampling, measurement, first, second, pacing⟩ := t
  obtain ⟨sampling', measurement', first', second', pacing'⟩ := u
  have hSampling : sampling = sampling' := h .queueSampling
  have hMeasurement : measurement = measurement' := h .loadMeasurement
  have hFirst : first = first' := h .holdDownFirst
  have hSecond : second = second' := h .holdDownSecond
  have hPacing : pacing = pacing' := h .pacing
  subst hSampling hMeasurement hFirst hSecond hPacing
  rfl

@[simp] theorem deadline?_set (t : Timetable) (timer other : Timer) (deadline : Instant) :
    (t.set timer deadline).deadline? other =
      if other = timer then some deadline else t.deadline? other :=
  deadline?_put t timer other (some deadline)

@[simp] theorem deadline?_setAfter (t : Timetable) (timer other : Timer) (now : Instant)
    (span : Span) :
    (t.setAfter timer now span).deadline? other =
      if other = timer then some (now + span) else t.deadline? other :=
  deadline?_set t timer other (now + span)

@[simp] theorem deadline?_stop (t : Timetable) (timer other : Timer) :
    (t.stop timer).deadline? other = if other = timer then none else t.deadline? other :=
  deadline?_put t timer other none

theorem isPending_iff {t : Timetable} {timer : Timer} :
    t.isPending timer = true ↔ ∃ deadline, t.deadline? timer = some deadline :=
  Option.isSome_iff_exists

theorem isPending_eq_false {t : Timetable} {timer : Timer} :
    t.isPending timer = false ↔ t.deadline? timer = none :=
  Option.isSome_eq_false_iff.trans Option.isNone_iff_eq_none

@[simp] theorem isPending_empty (timer : Timer) : empty.isPending timer = false :=
  isPending_eq_false.mpr (deadline?_empty timer)

@[simp] theorem isPending_setAfter (t : Timetable) (timer other : Timer) (now : Instant)
    (span : Span) :
    (t.setAfter timer now span).isPending other = (decide (other = timer) || t.isPending other) := by
  by_cases h : other = timer <;> simp [isPending, h]

@[simp] theorem isPending_stop (t : Timetable) (timer other : Timer) :
    (t.stop timer).isPending other = (!decide (other = timer) && t.isPending other) := by
  by_cases h : other = timer <;> simp [isPending, h]

theorem isExpired_iff {t : Timetable} {timer : Timer} {now : Instant} :
    t.isExpired timer now = true ↔ ∃ deadline, t.deadline? timer = some deadline ∧ deadline ≤ now := by
  cases h : t.deadline? timer with
  | none => simp [isExpired, h]
  | some deadline => simp [isExpired, h]

/-- Only an armed timer can be due. -/
theorem isPending_of_isExpired {t : Timetable} {timer : Timer} {now : Instant}
    (h : t.isExpired timer now = true) : t.isPending timer = true := by
  obtain ⟨deadline, hDeadline, _⟩ := isExpired_iff.mp h
  exact isPending_iff.mpr ⟨deadline, hDeadline⟩

theorem isExpired_stop (t : Timetable) (timer other : Timer) (now : Instant) :
    (t.stop timer).isExpired other now = true ↔ other ≠ timer ∧ t.isExpired other now = true := by
  by_cases h : other = timer <;> simp [isExpired, h]

/-- A timer that is armed to run for a while is not due at once, in place of any older deadline. -/
theorem isExpired_setAfter (t : Timetable) (timer other : Timer) (now : Instant) {span : Span}
    (h : 0 < span) :
    (t.setAfter timer now span).isExpired other now = true ↔
      other ≠ timer ∧ t.isExpired other now = true := by
  have hAhead : ¬now + span ≤ now := Nat.not_le_of_lt (Nat.lt_add_of_pos_right h)
  by_cases hEq : other = timer <;> simp [isExpired, hEq, hAhead]

/-- Disarming a timer that is not armed changes nothing, so a delivery that disarms first and
refuses afterwards leaves no trace. -/
theorem stop_eq_self {t : Timetable} {timer : Timer} (h : t.isPending timer = false) :
    t.stop timer = t := by
  apply eq_of_deadline?
  intro other
  rw [deadline?_stop]
  split
  · next hEq => rw [hEq, isPending_eq_false.mp h]
  · rfl

/-- The earliest deadline is one of the deadlines. -/
theorem exists_of_next? {t : Timetable} {deadline : Instant} (h : t.next? = some deadline) :
    ∃ timer, t.deadline? timer = some deadline := by
  obtain ⟨timer, _, hTimer⟩ := List.mem_filterMap.mp (List.min?_mem h)
  exact ⟨timer, hTimer⟩

theorem mem_deadlines {t : Timetable} {timer : Timer} {deadline : Instant}
    (h : t.deadline? timer = some deadline) : deadline ∈ Timer.all.filterMap t.deadline? :=
  List.mem_filterMap.mpr ⟨timer, by cases timer <;> decide, h⟩

/-- No timer runs out before the earliest deadline. -/
theorem next?_le {t : Timetable} {timer : Timer} {first deadline : Instant}
    (hFirst : t.next? = some first) (h : t.deadline? timer = some deadline) : first ≤ deadline :=
  (List.min?_eq_some_iff.mp hFirst).2 deadline (mem_deadlines h)

theorem exists_next? {t : Timetable} {timer : Timer} {deadline : Instant}
    (h : t.deadline? timer = some deadline) : ∃ first, t.next? = some first :=
  Option.isSome_iff_exists.mp (List.isSome_min?_of_mem (mem_deadlines h))

/-- Where no timer is due, the earliest deadline lies ahead. -/
theorem lt_of_next? {t : Timetable} {now deadline : Instant}
    (quiet : ∀ timer, t.isExpired timer now = false) (h : t.next? = some deadline) :
    now < deadline := by
  obtain ⟨timer, hTimer⟩ := exists_of_next? h
  have hQuiet := quiet timer
  simpa [isExpired, hTimer] using hQuiet

/-- From one timetable to the other, timers were disarmed, or armed for an instant that lies ahead. -/
def ArmsAhead (now : Instant) (t u : Timetable) : Prop :=
  ∀ timer deadline, u.deadline? timer = some deadline →
    t.deadline? timer = some deadline ∨ now < deadline

namespace ArmsAhead

variable {now : Instant} {t u v : Timetable}

theorem refl (now : Instant) (t : Timetable) : t.ArmsAhead now t := fun _ _ h => Or.inl h

theorem trans (h : t.ArmsAhead now u) (k : u.ArmsAhead now v) : t.ArmsAhead now v :=
  fun timer deadline hDeadline => (k timer deadline hDeadline).elim (h timer deadline) Or.inr

theorem stop (h : t.ArmsAhead now u) (timer : Timer) : t.ArmsAhead now (u.stop timer) := by
  intro other deadline hDeadline
  rw [deadline?_stop] at hDeadline
  split at hDeadline
  · cases hDeadline
  · exact h other deadline hDeadline

theorem setAfter (h : t.ArmsAhead now u) (timer : Timer) {span : Span} (hSpan : 0 < span) :
    t.ArmsAhead now (u.setAfter timer now span) := by
  intro other deadline hDeadline
  rw [deadline?_setAfter] at hDeadline
  split at hDeadline
  · cases hDeadline
    exact Or.inr (Nat.lt_add_of_pos_right hSpan)
  · exact h other deadline hDeadline

end ArmsAhead

end LoadFeedback.Timetable
