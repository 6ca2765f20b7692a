import LoadFeedback.Proofs.Calls
import LoadFeedback.Proofs.Schedule

/-! The timers of many components, over any queue that keeps one deadline for each timer and gives out an
earliest one. Which of several timers of one instant that is stays the queue's own affair; a schedule, which
has an order for them, is such a queue. -/
namespace LoadFeedback

/-- What a timer queue asks of the queue of its alarms. -/
class AlarmQueue (κ : Type) where
  empty : κ
  /-- The alarms, in whatever order the queue keeps them. -/
  alarms : κ → List Alarm
  /-- Adds an alarm. -/
  push : κ → TimerKey → Instant → κ
  remove : κ → TimerKey → κ
  clear : κ → κ
  deadline? : κ → TimerKey → Option Instant
  /-- Shows an earliest alarm. -/
  peek? : κ → Option Alarm
  /-- Takes out an earliest alarm. -/
  pop? : κ → Option (Alarm × κ)

/-- The alarm is one of these, and none of them is earlier. -/
structure Alarm.Earliest (a : Alarm) (alarms : List Alarm) : Prop where
  mem : a ∈ alarms
  le : ∀ b ∈ alarms, a.deadline ≤ b.deadline

namespace Alarm

theorem filter_not_mem_nil (alarms : List Alarm) : alarms.filter (·.key ∉ []) = alarms :=
  List.filter_eq_self.mpr fun _ _ => decide_eq_true List.not_mem_nil

theorem filter_filter_not_mem (alarms : List Alarm) (key : TimerKey) (keys : List TimerKey) :
    (alarms.filter (·.key ≠ key)).filter (·.key ∉ keys) = alarms.filter (·.key ∉ key :: keys) := by
  rw [List.filter_filter]
  refine List.filter_congr fun a _ => ?_
  simp [List.mem_cons, not_or, Bool.and_comm]

/-- To be none of the timers that an owner has is to be another owner's. -/
theorem filter_not_owned (alarms : List Alarm) (owner : Nat) :
    alarms.filter (·.key ∉ (alarms.filter (·.key.owner = owner)).map (·.key)) =
      alarms.filter (·.key.owner ≠ owner) := by
  refine List.filter_congr fun a ha => decide_eq_decide.mpr (not_congr ?_)
  constructor
  · intro hKey
    obtain ⟨b, hb, hEq⟩ := List.mem_map.mp hKey
    exact hEq ▸ of_decide_eq_true (List.mem_filter.mp hb).2
  · intro hOwner
    exact List.mem_map_of_mem (List.mem_filter.mpr ⟨ha, decide_eq_true hOwner⟩)

/-- What is due, and what lies ahead. -/
theorem filter_append {due ahead : List Alarm} {now : Instant} (before : ∀ a ∈ due, a.deadline ≤ now)
    (after : ∀ a ∈ ahead, now < a.deadline) :
    (due ++ ahead).filter (·.deadline ≤ now) = due ∧ (due ++ ahead).filter (now < ·.deadline) = ahead := by
  constructor
  · rw [List.filter_append, List.filter_eq_self.mpr fun a ha => decide_eq_true (before a ha),
      List.filter_eq_nil_iff.mpr fun a ha => by simpa using after a ha, List.append_nil]
  · rw [List.filter_append, List.filter_eq_nil_iff.mpr fun a ha => by simpa using before a ha,
      List.filter_eq_self.mpr fun a ha => decide_eq_true (after a ha), List.nil_append]

end Alarm

/-- A queue of alarms in which each timer has its last deadline. The alarm that is shown and the one that is
taken out may differ if they are due at one instant. -/
class LawfulAlarmQueue (κ : Type) [AlarmQueue κ] : Prop where
  alarms_empty : AlarmQueue.alarms (AlarmQueue.empty : κ) = []
  alarms_push (q : κ) (key : TimerKey) (deadline : Instant) :
    (AlarmQueue.alarms (AlarmQueue.push q key deadline)).Perm
      (⟨key, deadline⟩ :: (AlarmQueue.alarms q).filter (·.key ≠ key))
  alarms_remove (q : κ) (key : TimerKey) :
    (AlarmQueue.alarms (AlarmQueue.remove q key)).Perm ((AlarmQueue.alarms q).filter (·.key ≠ key))
  alarms_clear (q : κ) : AlarmQueue.alarms (AlarmQueue.clear q) = []
  deadline?_eq (q : κ) (key : TimerKey) :
    AlarmQueue.deadline? q key = ((AlarmQueue.alarms q).find? (·.key = key)).map (·.deadline)
  peek?_eq_none {q : κ} : AlarmQueue.peek? q = none → AlarmQueue.alarms q = []
  peek?_earliest {q : κ} {a : Alarm} : AlarmQueue.peek? q = some a → a.Earliest (AlarmQueue.alarms q)
  pop?_eq_none {q : κ} : AlarmQueue.pop? q = none → AlarmQueue.alarms q = []
  pop?_earliest {q rest : κ} {a : Alarm} : AlarmQueue.pop? q = some (a, rest) →
    a.Earliest (AlarmQueue.alarms q) ∧ (AlarmQueue.alarms q).Perm (a :: AlarmQueue.alarms rest)

/-- The timers of many components, in some kind of queue. -/
structure TimerQueue (κ : Type) where
  timers : κ

namespace TimerQueue

variable {κ : Type} [AlarmQueue κ]

def empty : TimerQueue κ := ⟨AlarmQueue.empty⟩

def alarms (q : TimerQueue κ) : List Alarm := AlarmQueue.alarms q.timers

def size (q : TimerQueue κ) : Nat := q.alarms.length

/-- Arms a timer for an instant, in place of any earlier deadline of it. -/
def set (q : TimerQueue κ) (key : TimerKey) (deadline : Instant) : TimerQueue κ :=
  ⟨AlarmQueue.push q.timers key deadline⟩

/-- Arms a timer to run for a span. -/
def setAfter (q : TimerQueue κ) (key : TimerKey) (span : Span) (now : Instant) : TimerQueue κ :=
  q.set key (now + span)

def cancel (q : TimerQueue κ) (key : TimerKey) : TimerQueue κ := ⟨AlarmQueue.remove q.timers key⟩

/-- Looks up which timers an owner has, and cancels them one by one. -/
def cancelOwner (q : TimerQueue κ) (owner : Nat) : TimerQueue κ :=
  ((q.alarms.filter (·.key.owner = owner)).map (·.key)).foldl cancel q

def clear (q : TimerQueue κ) : TimerQueue κ := ⟨AlarmQueue.clear q.timers⟩

def deadline? (q : TimerQueue κ) (key : TimerKey) : Option Instant := AlarmQueue.deadline? q.timers key

def next? (q : TimerQueue κ) : Option Instant := (AlarmQueue.peek? q.timers).map (·.deadline)

/-- How long to wait for the earliest deadline. -/
def remaining? (q : TimerQueue κ) (now : Instant) : Option Span :=
  (AlarmQueue.peek? q.timers).map (·.deadline - now)

/-- Takes out an earliest timer if it is due. -/
def popDue? (q : TimerQueue κ) (now : Instant) : Option (TimerKey × TimerQueue κ) :=
  match AlarmQueue.peek? q.timers with
  | some first =>
    if first.deadline ≤ now then (AlarmQueue.pop? q.timers).map fun (a, rest) => (a.key, ⟨rest⟩) else none
  | none => none

/-- Each timer has one alarm at most. -/
def Unique (q : TimerQueue κ) : Prop := (q.alarms.map (·.key)).Nodup

variable {q rest : TimerQueue κ}

namespace Unique

theorem of_perm {alarms : List Alarm} (perm : q.alarms.Perm alarms) (unique : (alarms.map (·.key)).Nodup) :
    q.Unique :=
  (perm.map Alarm.key).nodup_iff.mpr unique

theorem filter (h : q.Unique) (p : Alarm → Bool) : ((q.alarms.filter p).map (·.key)).Nodup :=
  h.sublist (List.filter_sublist.map _)

/-- What stays behind when an alarm is taken out. -/
theorem of_cons (h : q.Unique) {a : Alarm} (perm : q.alarms.Perm (a :: rest.alarms)) :
    a.key ∉ rest.alarms.map (·.key) ∧ rest.Unique :=
  List.nodup_cons.mp ((perm.map Alarm.key).nodup_iff.mp h)

end Unique

section

variable [LawfulAlarmQueue κ]

@[simp] theorem alarms_empty : (empty : TimerQueue κ).alarms = [] := LawfulAlarmQueue.alarms_empty

@[simp] theorem alarms_clear (q : TimerQueue κ) : q.clear.alarms = [] :=
  LawfulAlarmQueue.alarms_clear q.timers

theorem perm_set (q : TimerQueue κ) (key : TimerKey) (deadline : Instant) :
    (q.set key deadline).alarms.Perm (⟨key, deadline⟩ :: q.alarms.filter (·.key ≠ key)) :=
  LawfulAlarmQueue.alarms_push q.timers key deadline

theorem perm_cancel (q : TimerQueue κ) (key : TimerKey) :
    (q.cancel key).alarms.Perm (q.alarms.filter (·.key ≠ key)) :=
  LawfulAlarmQueue.alarms_remove q.timers key

theorem perm_foldl_cancel (keys : List TimerKey) (q : TimerQueue κ) :
    (keys.foldl cancel q).alarms.Perm (q.alarms.filter (·.key ∉ keys)) := by
  induction keys generalizing q with
  | nil => rw [List.foldl_nil, Alarm.filter_not_mem_nil]
  | cons key keys ih =>
      rw [List.foldl_cons, ← Alarm.filter_filter_not_mem]
      exact (ih (q.cancel key)).trans ((perm_cancel q key).filter _)

theorem perm_cancelOwner (q : TimerQueue κ) (owner : Nat) :
    (q.cancelOwner owner).alarms.Perm (q.alarms.filter (·.key.owner ≠ owner)) := by
  rw [← Alarm.filter_not_owned]
  exact perm_foldl_cancel _ q

/-- Everything that can come out of a timer queue. -/
theorem popDue?_cases (q : TimerQueue κ) (now : Instant) :
    (q.popDue? now = none ∧ ∀ a ∈ q.alarms, now < a.deadline) ∨
      ∃ a rest, q.popDue? now = some (a.key, rest) ∧ a.Earliest q.alarms ∧ a.deadline ≤ now ∧
        q.alarms.Perm (a :: rest.alarms) := by
  unfold popDue?
  cases hPeek : AlarmQueue.peek? q.timers with
  | none =>
      refine Or.inl ⟨rfl, fun a ha => ?_⟩
      have hMem : a ∈ AlarmQueue.alarms q.timers := ha
      rw [LawfulAlarmQueue.peek?_eq_none hPeek] at hMem
      exact absurd hMem List.not_mem_nil
  | some first =>
      have hFirst : first.Earliest q.alarms := LawfulAlarmQueue.peek?_earliest hPeek
      by_cases hDue : first.deadline ≤ now
      · cases hPop : AlarmQueue.pop? q.timers with
        | none =>
            have hMem : first ∈ AlarmQueue.alarms q.timers := hFirst.mem
            rw [LawfulAlarmQueue.pop?_eq_none hPop] at hMem
            exact absurd hMem List.not_mem_nil
        | some out =>
            obtain ⟨a, rest⟩ := out
            obtain ⟨hEarliest, hPerm⟩ := LawfulAlarmQueue.pop?_earliest hPop
            have hLe : a.deadline ≤ now := Nat.le_trans (hEarliest.le first hFirst.mem) hDue
            exact Or.inr ⟨a, ⟨rest⟩, by simp [hDue], hEarliest, hLe, hPerm⟩
      · refine Or.inl ⟨by simp [hDue], fun a ha => ?_⟩
        exact Nat.lt_of_lt_of_le (Nat.lt_of_not_le hDue) (hFirst.le a ha)

theorem size_lt_of_popDue? {now : Instant} {key : TimerKey} (h : q.popDue? now = some (key, rest)) :
    rest.size < q.size := by
  rcases q.popDue?_cases now with ⟨hNone, _⟩ | ⟨a, others, hSome, _, _, hPerm⟩
  · cases hNone.symm.trans h
  · cases hSome.symm.trans h
    have hLength : q.size = rest.size + 1 := hPerm.length_eq
    exact hLength ▸ Nat.lt_succ_self rest.size

theorem next?_eq (q : TimerQueue κ) : q.next? = (q.alarms.map (·.deadline)).min? := by
  symm
  unfold next?
  cases hPeek : AlarmQueue.peek? q.timers with
  | none =>
      have hEmpty : q.alarms = [] := LawfulAlarmQueue.peek?_eq_none hPeek
      rw [hEmpty]
      rfl
  | some first =>
      have hFirst : first.Earliest q.alarms := LawfulAlarmQueue.peek?_earliest hPeek
      exact List.min?_eq_some_iff.mpr
        ⟨List.mem_map_of_mem hFirst.mem, List.forall_mem_map.mpr hFirst.le⟩

theorem unique_empty : (empty : TimerQueue κ).Unique := by simp [Unique]

namespace Unique

theorem set (h : q.Unique) (key : TimerKey) (deadline : Instant) : (q.set key deadline).Unique :=
  .of_perm (perm_set q key deadline) (Alarm.nodup_cons_filter h ⟨key, deadline⟩)

theorem cancel (h : q.Unique) (key : TimerKey) : (q.cancel key).Unique :=
  .of_perm (perm_cancel q key) (h.filter _)

theorem cancelOwner (h : q.Unique) (owner : Nat) : (q.cancelOwner owner).Unique :=
  .of_perm (perm_cancelOwner q owner) (h.filter _)

theorem clear (q : TimerQueue κ) : q.clear.Unique := by simp [Unique]

theorem mem_iff (h : q.Unique) (a : Alarm) : a ∈ q.alarms ↔ q.deadline? a.key = some a.deadline := by
  rw [deadline?, LawfulAlarmQueue.deadline?_eq]
  exact Alarm.mem_iff_find? h a

/-- A deadline that is told by the alarms. -/
theorem deadline?_eq (h : q.Unique) {key : TimerKey} {deadline : Option Instant}
    (mem_iff : ∀ time, ⟨key, time⟩ ∈ q.alarms ↔ deadline = some time) : q.deadline? key = deadline :=
  Option.ext fun time => (h.mem_iff ⟨key, time⟩).symm.trans (mem_iff time)

theorem deadline?_set (h : q.Unique) (key other : TimerKey) (deadline : Instant) :
    (q.set key deadline).deadline? other = if other = key then some deadline else q.deadline? other := by
  refine (h.set key deadline).deadline?_eq fun time => ?_
  rw [(perm_set q key deadline).mem_iff, List.mem_cons, List.mem_filter, h.mem_iff]
  by_cases hKey : other = key
  · simp [hKey, eq_comm]
  · simp [hKey]

theorem deadline?_cancel (h : q.Unique) (key other : TimerKey) :
    (q.cancel key).deadline? other = if other = key then none else q.deadline? other := by
  refine (h.cancel key).deadline?_eq fun time => ?_
  rw [(perm_cancel q key).mem_iff, List.mem_filter, h.mem_iff]
  by_cases hKey : other = key
  · simp [hKey]
  · simp [hKey]

theorem deadline?_cancelOwner (h : q.Unique) (owner : Nat) (key : TimerKey) :
    (q.cancelOwner owner).deadline? key = if key.owner = owner then none else q.deadline? key := by
  refine (h.cancelOwner owner).deadline?_eq fun time => ?_
  rw [(perm_cancelOwner q owner).mem_iff, List.mem_filter, h.mem_iff]
  by_cases hOwner : key.owner = owner
  · simp [hOwner]
  · simp [hOwner]

theorem deadline?_clear (q : TimerQueue κ) (key : TimerKey) : q.clear.deadline? key = none :=
  (clear q).deadline?_eq fun time => by simp

theorem deadline?_of_cons (h : q.Unique) {a : Alarm} (perm : q.alarms.Perm (a :: rest.alarms))
    (key : TimerKey) : rest.deadline? key = if key = a.key then none else q.deadline? key := by
  obtain ⟨hFresh, hRest⟩ := h.of_cons perm
  refine hRest.deadline?_eq fun time => ?_
  by_cases hKey : key = a.key
  · have hNotMem : ⟨key, time⟩ ∉ rest.alarms := fun hMem => hFresh (hKey ▸ List.mem_map_of_mem hMem)
    simp [hKey ▸ hNotMem, hKey]
  · rw [if_neg hKey, ← h.mem_iff ⟨key, time⟩, perm.mem_iff, List.mem_cons]
    have hNe : (⟨key, time⟩ : Alarm) ≠ a := fun hEq => hKey (congrArg Alarm.key hEq)
    simp [hNe]

end Unique

/-- All that is due comes out in the order of the deadlines, and the rest stays. -/
theorem drains (q : TimerQueue κ) (now : Instant) :
    ∃ (due : List Alarm) (rest : TimerQueue κ), Drains (popDue? · now) q (due.map (·.key)) rest ∧
      due.Pairwise (·.deadline ≤ ·.deadline) ∧ due.Perm (q.alarms.filter (·.deadline ≤ now)) ∧
      rest.alarms.Perm (q.alarms.filter (now < ·.deadline)) := by
  suffices ∃ (due : List Alarm) (rest : TimerQueue κ), Drains (popDue? · now) q (due.map (·.key)) rest ∧
      due.Pairwise (·.deadline ≤ ·.deadline) ∧ q.alarms.Perm (due ++ rest.alarms) ∧
      (∀ a ∈ due, a.deadline ≤ now) ∧ ∀ a ∈ rest.alarms, now < a.deadline by
    obtain ⟨due, rest, hDrains, hRising, hPerm, hBefore, hAfter⟩ := this
    obtain ⟨hDue, hAhead⟩ := Alarm.filter_append hBefore hAfter
    have hDuePerm := hPerm.filter (·.deadline ≤ now)
    have hAheadPerm := hPerm.filter (now < ·.deadline)
    rw [hDue] at hDuePerm
    rw [hAhead] at hAheadPerm
    exact ⟨due, rest, hDrains, hRising, hDuePerm.symm, hAheadPerm.symm⟩
  obtain ⟨keys, last, hDrains⟩ : ∃ keys last, Drains (popDue? · now) q keys last :=
    Drains.exists_of_shrinks size (fun _ _ _ => size_lt_of_popDue?) q
  induction hDrains with
  | @done q none =>
      rcases q.popDue?_cases now with ⟨_, hAhead⟩ | ⟨_, _, hSome, _⟩
      · exact ⟨[], q, .done none, .nil, .refl _, by simp, hAhead⟩
      · cases none.symm.trans hSome
  | @next q t _ key keys first others ih =>
      rcases q.popDue?_cases now with ⟨hNone, _⟩ | ⟨a, _, hSome, hFirst, hDue, hPerm⟩
      · cases hNone.symm.trans first
      · cases hSome.symm.trans first
        obtain ⟨due, rest, hDrains, hRising, hOthers, hBefore, hAfter⟩ := ih
        refine ⟨a :: due, rest, .next first hDrains, List.pairwise_cons.mpr ⟨fun b hb => ?_, hRising⟩,
          hPerm.trans (hOthers.cons a), List.forall_mem_cons.mpr ⟨hDue, hBefore⟩, hAfter⟩
        have hMem : b ∈ t.alarms := hOthers.mem_iff.mpr (List.mem_append_left _ hb)
        exact hFirst.le b (hPerm.mem_iff.mpr (List.mem_cons_of_mem _ hMem))

end

end TimerQueue

/-- A schedule in which the alarms stand in order. -/
abbrev OrderedSchedule := { s : Schedule // s.Ordered }

namespace OrderedSchedule

theorem ordered_tail {a : Alarm} {rest : List Alarm} (h : (⟨a :: rest⟩ : Schedule).Ordered) :
    (⟨rest⟩ : Schedule).Ordered where
  rising := (List.pairwise_cons.mp h.rising).2
  unique := (List.nodup_cons.mp h.unique).2

def pop? : OrderedSchedule → Option (Alarm × OrderedSchedule)
  | ⟨⟨[]⟩, _⟩ => none
  | ⟨⟨a :: rest⟩, h⟩ => some (a, ⟨⟨rest⟩, ordered_tail h⟩)

instance : AlarmQueue OrderedSchedule where
  empty := ⟨.empty, Schedule.ordered_empty⟩
  alarms s := s.val.alarms
  push s key deadline := ⟨s.val.set key deadline, s.property.set key deadline⟩
  remove s key := ⟨s.val.cancel key, s.property.cancel key⟩
  clear _ := ⟨.empty, Schedule.ordered_empty⟩
  deadline? s := s.val.deadline?
  peek? s := s.val.alarms.head?
  pop? := pop?

theorem head_earliest (s : OrderedSchedule) {a : Alarm} (h : s.val.alarms.head? = some a) :
    a.Earliest s.val.alarms :=
  ⟨List.mem_of_head? h, s.property.head_le h⟩

instance : LawfulAlarmQueue OrderedSchedule where
  alarms_empty := rfl
  alarms_push s key deadline := Schedule.perm_place ⟨key, deadline⟩ (s.val.cancel key).alarms
  alarms_remove _ _ := .refl _
  alarms_clear _ := rfl
  deadline?_eq _ _ := rfl
  peek?_eq_none := List.head?_eq_none_iff.mp
  peek?_earliest := head_earliest _
  pop?_eq_none {s} h := by
    obtain ⟨⟨alarms⟩, _⟩ := s
    cases alarms with
    | nil => rfl
    | cons a rest => cases h
  pop?_earliest {s rest a} h := by
    obtain ⟨⟨alarms⟩, hOrdered⟩ := s
    cases alarms with
    | nil => cases h
    | cons a rest =>
        cases h
        exact ⟨head_earliest ⟨⟨a :: rest⟩, hOrdered⟩ rfl, .refl _⟩

end OrderedSchedule

namespace TimerQueue

variable (q : TimerQueue OrderedSchedule)

/-- The schedule that a timer queue over ordered schedules is. -/
def schedule : Schedule := q.timers.val

theorem schedule_foldl_cancel (keys : List TimerKey) :
    (keys.foldl cancel q).schedule = ⟨q.schedule.alarms.filter (·.key ∉ keys)⟩ := by
  induction keys generalizing q with
  | nil => rw [List.foldl_nil, Alarm.filter_not_mem_nil]
  | cons key keys ih =>
      rw [List.foldl_cons, ← Alarm.filter_filter_not_mem]
      exact ih (q.cancel key)

theorem schedule_cancelOwner (owner : Nat) : (q.cancelOwner owner).schedule = q.schedule.cancelOwner owner := by
  rw [Schedule.cancelOwner, ← Alarm.filter_not_owned]
  exact schedule_foldl_cancel q _

theorem schedule_popDue? (now : Instant) :
    q.schedule.popDue? now = (q.popDue? now).map fun (key, rest) => (key, rest.schedule) := by
  obtain ⟨⟨⟨alarms⟩, _⟩⟩ := q
  cases alarms with
  | nil => rfl
  | cons a rest =>
      by_cases hDue : a.deadline ≤ now
      · simp [popDue?, Schedule.popDue?, AlarmQueue.peek?, AlarmQueue.pop?, OrderedSchedule.pop?, schedule,
          hDue]
      · simp [popDue?, Schedule.popDue?, AlarmQueue.peek?, schedule, hDue]

theorem schedule_remaining? (now : Instant) : q.schedule.remaining? now = q.remaining? now := by
  rw [Schedule.remaining?, Schedule.next?, Option.map_map]
  rfl

end TimerQueue

end LoadFeedback
