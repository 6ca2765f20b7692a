import LoadFeedback.Proofs.LastSet
import LoadFeedback.Proofs.Timer.Queue

/-! A timer queue against its history. The deadline of a timer is the one that was set last, unless the timer
has been cancelled, alone or with its owner, or has come out since. -/
namespace LoadFeedback

/-- One call that may change a timer queue. -/
inductive TimerCall where
  | set (key : TimerKey) (deadline : Instant)
  | setAfter (key : TimerKey) (span : Span) (now : Instant)
  | cancel (key : TimerKey)
  | cancelOwner (owner : Nat)
  | popDue (now : Instant)
  | clear

/-- The deadline that a timer has after a call, or none, if the call is about this timer. What a call that
takes out a timer is about is told by its answer. -/
def TimerCall.sets? (key : TimerKey) : TimerCall × Option TimerKey → Option (Option Instant)
  | (.set other deadline, _) => if key = other then some (some deadline) else none
  | (.setAfter other span now, _) => if key = other then some (some (now + span)) else none
  | (.cancel other, _) => if key = other then some none else none
  | (.cancelOwner owner, _) => if key.owner = owner then some none else none
  | (.popDue _, answer) => if answer = some key then some none else none
  | (.clear, _) => some none

namespace TimerQueue

variable {κ : Type} [AlarmQueue κ]

/-- The timer that comes out at a call, and the queue after it. -/
def call (q : TimerQueue κ) : TimerCall → Option TimerKey × TimerQueue κ
  | .set key deadline => (none, q.set key deadline)
  | .setAfter key span now => (none, q.setAfter key span now)
  | .cancel key => (none, q.cancel key)
  | .cancelOwner owner => (none, q.cancelOwner owner)
  | .popDue now => taken q (q.popDue? now)
  | .clear => (none, q.clear)

variable [LawfulAlarmQueue κ] {q : TimerQueue κ}

namespace Unique

theorem call (h : q.Unique) (c : TimerCall) : (q.call c).2.Unique := by
  cases c with
  | set key deadline => exact h.set key deadline
  | setAfter key span now => exact h.set key (now + span)
  | cancel key => exact h.cancel key
  | cancelOwner owner => exact h.cancelOwner owner
  | clear => exact clear q
  | popDue now =>
      rw [TimerQueue.call]
      rcases q.popDue?_cases now with ⟨hNone, _⟩ | ⟨a, rest, hSome, _, _, hPerm⟩
      · exact hNone ▸ h
      · exact hSome ▸ (h.of_cons hPerm).2

theorem deadline?_call (h : q.Unique) (c : TimerCall) (key : TimerKey) :
    (q.call c).2.deadline? key = (TimerCall.sets? key (c, (q.call c).1)).getD (q.deadline? key) := by
  cases c with
  | set other deadline =>
      rw [TimerQueue.call, TimerCall.sets?, h.deadline?_set]
      split <;> rfl
  | setAfter other span now =>
      rw [TimerQueue.call, TimerCall.sets?, setAfter, h.deadline?_set]
      split <;> rfl
  | cancel other =>
      rw [TimerQueue.call, TimerCall.sets?, h.deadline?_cancel]
      split <;> rfl
  | cancelOwner owner =>
      rw [TimerQueue.call, TimerCall.sets?, h.deadline?_cancelOwner]
      split <;> rfl
  | clear => exact deadline?_clear q key
  | popDue now =>
      rw [TimerQueue.call]
      rcases q.popDue?_cases now with ⟨hNone, _⟩ | ⟨a, rest, hSome, _, _, hPerm⟩
      · rw [hNone]
        rfl
      · rw [hSome, taken, TimerCall.sets?, h.deadline?_of_cons hPerm key]
        by_cases hKey : key = a.key
        · rw [if_pos hKey, if_pos (congrArg some hKey.symm), Option.getD_some]
        · rw [if_neg hKey, if_neg fun hSame => hKey (Option.some.inj hSame).symm, Option.getD_none]

theorem deadline?_run (h : q.Unique) (calls : List TimerCall) (key : TimerKey) :
    (Calls.run TimerQueue.call q calls).deadline? key =
      (lastSet? (TimerCall.sets? key) (calls.zip (Calls.answers TimerQueue.call q calls))).getD
        (q.deadline? key) := by
  induction calls generalizing q with
  | nil => rfl
  | cons c rest ih =>
      rw [Calls.run_cons, ih (h.call c), h.deadline?_call, Calls.answers, List.zip_cons_cons, lastSet?_cons,
        Option.getD_or]

end Unique

/-- Whatever timers are armed, armed again, cancelled and taken out, a timer queue holds for each timer the
deadline that was set last, or none if the timer has been cancelled or has come out since, and nothing else.
An owner whose timers are cancelled loses all of them, and no other owner loses any. The next deadline is the
earliest one; a timer that comes out has this deadline and is due, and none comes out if all lie ahead. If all
that is due is taken out, each timer comes once, in the order of the deadlines, and what lies ahead is still
there. The queue of the alarms may be any that replaces the deadline of a timer that is set again and
gives out one of the earliest alarms. -/
theorem keeps_last_deadlines (calls : List TimerCall) :
    let q := Calls.run call (empty : TimerQueue κ) calls
    let log := calls.zip (Calls.answers call (empty : TimerQueue κ) calls)
    (∀ key, q.deadline? key = (lastSet? (TimerCall.sets? key) log).getD none) ∧
    (∀ a, a ∈ q.alarms ↔ q.deadline? a.key = some a.deadline) ∧
    (q.alarms.map (·.key)).Nodup ∧
    (∀ owner key, (q.cancelOwner owner).deadline? key = if key.owner = owner then none else q.deadline? key) ∧
    q.next? = (q.alarms.map (·.deadline)).min? ∧
    (∀ now, q.remaining? now = (q.alarms.map (·.deadline)).min?.map (· - now)) ∧
    (∀ now, (q.popDue? now = none ∧ ∀ a ∈ q.alarms, now < a.deadline) ∨
      ∃ (a : Alarm) (rest : TimerQueue κ), q.popDue? now = some (a.key, rest) ∧ a.Earliest q.alarms ∧
        a.deadline ≤ now ∧ ∀ key, rest.deadline? key = if key = a.key then none else q.deadline? key) ∧
    (∀ now, ∃ (due : List Alarm) (rest : TimerQueue κ), Drains (popDue? · now) q (due.map (·.key)) rest ∧
      due.Pairwise (·.deadline ≤ ·.deadline) ∧ due.Perm (q.alarms.filter (·.deadline ≤ now)) ∧
      rest.alarms.Perm (q.alarms.filter (now < ·.deadline))) := by
  intro q log
  have hUnique : q.Unique := Calls.run_preserves (P := Unique) (fun _ c h => h.call c) unique_empty calls
  refine ⟨fun key => ?_, hUnique.mem_iff, hUnique, hUnique.deadline?_cancelOwner, next?_eq q, fun now => ?_,
    fun now => ?_, q.drains⟩
  · have hStart : (empty : TimerQueue κ).Unique := unique_empty
    have hEmpty : (empty : TimerQueue κ).deadline? key = none := hStart.deadline?_eq fun time => by simp
    have hDeadline := hStart.deadline?_run calls key
    rwa [hEmpty] at hDeadline
  · rw [← next?_eq, next?, Option.map_map]
    rfl
  · rcases q.popDue?_cases now with hNone | ⟨a, rest, hSome, hFirst, hDue, hPerm⟩
    · exact Or.inl hNone
    · exact Or.inr ⟨a, rest, hSome, hFirst, hDue, hUnique.deadline?_of_cons hPerm⟩

/-- A timer that is armed again waits for its last deadline, and of an owner that has lost its timers only
the one that was armed again comes out. -/
theorem rearmed_timer_waits :
    let calls : List TimerCall :=
      [.set ⟨0, .pacing⟩ 10, .setAfter ⟨0, .pacing⟩ 30 10, .set ⟨1, .holdDownFirst⟩ 15, .set ⟨2, .pacing⟩ 20,
        .set ⟨1, .pacing⟩ 12, .cancelOwner 1, .set ⟨1, .pacing⟩ 20, .popDue 15]
    let q := Calls.run call (empty : TimerQueue OrderedSchedule) calls
    q.deadline? ⟨0, .pacing⟩ = some 40 ∧ q.deadline? ⟨1, .holdDownFirst⟩ = none ∧ q.next? = some 20 ∧
    ∃ (due : List Alarm) (rest : TimerQueue OrderedSchedule),
      Drains (popDue? · 20) q (due.map (·.key)) rest ∧
      due.Perm [⟨⟨1, .pacing⟩, 20⟩, ⟨⟨2, .pacing⟩, 20⟩] ∧ rest.alarms.Perm [⟨⟨0, .pacing⟩, 40⟩] := by
  intro calls q
  obtain ⟨hDeadline, _, _, _, hNext, _, _, hDrains⟩ := @keeps_last_deadlines OrderedSchedule _ _ calls
  obtain ⟨due, rest, hOut, _, hDue, hRest⟩ := hDrains 20
  exact ⟨(hDeadline _).trans rfl, (hDeadline _).trans rfl, hNext.trans rfl, due, rest, hOut, hDue, hRest⟩

end TimerQueue

namespace Schedule

/-- The timer that comes out at a call, and the schedule after it. -/
def call (s : Schedule) : TimerCall → Option TimerKey × Schedule
  | .set key deadline => (none, s.set key deadline)
  | .setAfter key span now => (none, s.setAfter key span now)
  | .cancel key => (none, s.cancel key)
  | .cancelOwner owner => (none, s.cancelOwner owner)
  | .popDue now => taken s (s.popDue? now)
  | .clear => (none, empty)

theorem call_eq (q : TimerQueue OrderedSchedule) (c : TimerCall) :
    (q.call c).1 = (q.schedule.call c).1 ∧ (q.call c).2.schedule = (q.schedule.call c).2 := by
  cases c with
  | set | setAfter | cancel | clear => exact ⟨rfl, rfl⟩
  | cancelOwner owner => exact ⟨rfl, q.schedule_cancelOwner owner⟩
  | popDue now =>
      rw [TimerQueue.call, call, q.schedule_popDue?]
      cases q.popDue? now with
      | none => exact ⟨rfl, rfl⟩
      | some out => exact ⟨rfl, rfl⟩

/-- A schedule does what a timer queue over ordered schedules does, and tells the same deadlines. -/
theorem run_eq (calls : List TimerCall) :
    let start : TimerQueue OrderedSchedule := .empty
    let q := Calls.run TimerQueue.call start calls
    let s := Calls.run call empty calls
    Calls.answers TimerQueue.call start calls = Calls.answers call empty calls ∧ q.schedule = s ∧
    (∀ key, q.deadline? key = s.deadline? key) ∧ q.next? = s.next? ∧
    (∀ now, q.remaining? now = s.remaining? now) := by
  intro start q s
  have hStep (q : TimerQueue OrderedSchedule) (s : Schedule) (c : TimerCall) (h : q.schedule = s) :
      (q.call c).1 = (s.call c).1 ∧ (q.call c).2.schedule = (s.call c).2 := by
    rw [← h]
    exact call_eq q c
  have hStart : start.schedule = empty := rfl
  obtain ⟨hAnswers, hSchedule⟩ :=
    Calls.run_simulates (R := fun (q : TimerQueue OrderedSchedule) s => q.schedule = s) hStep hStart calls
  have hSame : s = q.schedule := hSchedule.symm
  rw [hSame]
  exact ⟨hAnswers, rfl, fun _ => rfl, rfl, fun now => (q.schedule_remaining? now).symm⟩

/-- Everything that is due has been taken out when no more comes out. -/
theorem drains_iff_popAllDue {s last : Schedule} {now : Instant} {keys : List TimerKey} :
    Drains (popDue? · now) s keys last ↔ s.popAllDue now = (keys, last) := by
  have hAll : Drains (popDue? · now) s (s.popAllDue now).1 (s.popAllDue now).2 := by
    fun_induction popAllDue s now with
    | case1 s none => exact .done none
    | case2 s key rest first keys last hRest ih =>
        rw [hRest] at ih
        exact .next first ih
  constructor
  · intro hDrains
    obtain ⟨hKeys, hLast⟩ := hAll.unique hDrains
    exact Prod.ext hKeys hLast
  · intro hEq
    rw [hEq] at hAll
    exact hAll

end Schedule

end LoadFeedback
