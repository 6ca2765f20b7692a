import LoadFeedback.Proofs.Agenda.Weight
import LoadFeedback.Proofs.Calls

/-! An agenda against a plain list of what was put down. Of the events that wait, the earliest one comes
out, and among those of one instant the one that was put down first, so an agenda that is emptied sorts
what is due and keeps the order of equals. -/
namespace LoadFeedback

/-- A stable sort leaves those in their order that may stay in it. -/
theorem filter_mergeSort {β : Type} {le : β → β → Bool}
    (trans : ∀ x y z, le x y = true → le y z = true → le x z = true)
    (total : ∀ x y, (le x y || le y x) = true) {p : β → Bool} (items : List β)
    (equal : (items.filter p).Pairwise fun x y => le x y = true) :
    (items.mergeSort le).filter p = items.filter p := by
  have hKept : (items.filter p).Sublist (items.mergeSort le) :=
    List.sublist_mergeSort trans total equal List.filter_sublist
  have hSub := hKept.filter p
  rw [List.filter_filter, List.filter_congr (q := p) fun x _ => Bool.and_self (p x)] at hSub
  exact (hSub.eq_of_length ((items.mergeSort_perm le).filter p).length_eq.symm).symm

/-- One call on an agenda. -/
inductive AgendaCall (ε : Type) where
  | push (time : Instant) (event : ε)
  | pop (now : Instant)

/-- An event with its instant. -/
abbrev Appointment (ε : Type) := Instant × ε

variable {ε : Type}

def AgendaCall.appointment? : AgendaCall ε → Option (Appointment ε)
  | push time event => some (time, event)
  | pop _ => none

namespace Agenda

/-- The event that comes out at a call, and the agenda after it. -/
def call (a : Agenda ε) : AgendaCall ε → Option ε × Agenda ε
  | .push time event => (none, a.push time event)
  | .pop now => taken a (a.popDue? now)

end Agenda

/-- What was put down, and what became of it. -/
structure Diary (ε : Type) where
  /-- Everything that was put down, as it came. -/
  pushed : List (Appointment ε) := []
  /-- What is to come, in the order in which it was put down. -/
  waiting : List (Appointment ε) := []
  /-- What came out, in this order. -/
  delivered : List (Appointment ε) := []

namespace Diary

/-- The first of the earliest ones. -/
def earliest? (waiting : List (Appointment ε)) : Option (Appointment ε) :=
  (waiting.map (·.1)).min?.bind fun first => waiting.find? (·.1 = first)

def call (d : Diary ε) : AgendaCall ε → Option ε × Diary ε
  | .push time event =>
    (none, { d with pushed := d.pushed ++ [(time, event)], waiting := d.waiting ++ [(time, event)] })
  | .pop now =>
    match (earliest? d.waiting).filter (·.1 ≤ now) with
    | some x =>
      (some x.2,
        { d with waiting := d.waiting.eraseP (·.1 = x.1), delivered := d.delivered ++ [x] })
    | none => (none, d)

/-- The appointment comes first: those before it in the list are later, and those behind it are not
earlier. -/
structure Leads (x : Appointment ε) (before after : List (Appointment ε)) : Prop where
  before_lt : ∀ y ∈ before, x.1 < y.1
  after_le : ∀ y ∈ after, x.1 ≤ y.1

theorem Leads.le {x : Appointment ε} {before after : List (Appointment ε)} (h : Leads x before after) :
    ∀ y ∈ before ++ x :: after, x.1 ≤ y.1 := by
  intro y hy
  rcases List.mem_append.mp hy with hBefore | hRest
  · exact Nat.le_of_lt (h.before_lt y hBefore)
  · rcases List.mem_cons.mp hRest with rfl | hAfter
    · exact Nat.le_refl _
    · exact h.after_le y hAfter

theorem earliest?_eq_none_iff {waiting : List (Appointment ε)} :
    earliest? waiting = none ↔ waiting = [] := by
  constructor
  · intro h
    cases hMin : (waiting.map (·.1)).min? with
    | none => exact List.map_eq_nil_iff.mp (List.min?_eq_none_iff.mp hMin)
    | some first =>
        obtain ⟨y, hy, hTime⟩ := List.mem_map.mp (List.min?_mem hMin)
        rw [earliest?, hMin, Option.bind_some] at h
        exact absurd (decide_eq_true hTime) (List.find?_eq_none.mp h y hy)
  · rintro rfl
    rfl

theorem earliest?_eq_some_iff {waiting : List (Appointment ε)} {x : Appointment ε} :
    earliest? waiting = some x ↔
      ∃ before after, waiting = before ++ x :: after ∧ Leads x before after := by
  constructor
  · intro h
    obtain ⟨first, hMin, hFind⟩ := Option.bind_eq_some_iff.mp h
    obtain ⟨hTime, before, after, rfl, hBefore⟩ := List.find?_eq_some_iff_append.mp hFind
    have hLeast := (List.min?_eq_some_iff.mp hMin).2
    have hFirst : x.1 = first := of_decide_eq_true hTime
    subst hFirst
    refine ⟨before, after, rfl, fun y hy => ?_, fun y hy => ?_⟩
    · have hNe : y.1 ≠ x.1 := by simpa using hBefore y hy
      exact Nat.lt_of_le_of_ne (hLeast y.1 (List.mem_map_of_mem (by simp [hy]))) hNe.symm
    · exact hLeast y.1 (List.mem_map_of_mem (by simp [hy]))
  · rintro ⟨before, after, rfl, hLeads⟩
    have hMin : ((before ++ x :: after).map (·.1)).min? = some x.1 :=
      List.min?_eq_some_iff.mpr ⟨by simp, List.forall_mem_map.mpr hLeads.le⟩
    rw [earliest?, hMin, Option.bind_some]
    refine List.find?_eq_some_iff_append.mpr ⟨decide_eq_true rfl, before, after, rfl, fun y hy => ?_⟩
    simpa using Nat.ne_of_gt (hLeads.before_lt y hy)

theorem Leads.eraseP {x : Appointment ε} {before after : List (Appointment ε)}
    (h : Leads x before after) :
    (before ++ x :: after).eraseP (·.1 = x.1) = before ++ after := by
  rw [List.eraseP_append_right _ fun y hy => by simpa using Nat.ne_of_gt (h.before_lt y hy),
    List.eraseP_cons_of_pos (by simp)]

/-- Everything that a call can do to a diary. -/
inductive Records (d : Diary ε) : AgendaCall ε → Option ε × Diary ε → Prop where
  | pushed (x : Appointment ε) : Records d (.push x.1 x.2)
      (none, { d with pushed := d.pushed ++ [x], waiting := d.waiting ++ [x] })
  | popped {x : Appointment ε} {before after : List (Appointment ε)} {now : Instant}
      (waiting_eq : d.waiting = before ++ x :: after) (leads : Leads x before after)
      (due : x.1 ≤ now) : Records d (.pop now)
      (some x.2, { d with waiting := before ++ after, delivered := d.delivered ++ [x] })
  | quiet {now : Instant} (ahead : ∀ x ∈ d.waiting, now < x.1) : Records d (.pop now) (none, d)

theorem call_of_leads {d : Diary ε} {x : Appointment ε} {before after : List (Appointment ε)}
    (waiting_eq : d.waiting = before ++ x :: after) (leads : Leads x before after) {now : Instant}
    (due : x.1 ≤ now) : d.call (.pop now) =
      (some x.2, { d with waiting := before ++ after, delivered := d.delivered ++ [x] }) := by
  have hFirst := earliest?_eq_some_iff.mpr ⟨before, after, rfl, leads⟩
  simp only [call, waiting_eq, hFirst, Option.filter_some, due, decide_true, ↓reduceIte,
    leads.eraseP]

theorem call_of_ahead {d : Diary ε} {now : Instant} (ahead : ∀ x ∈ d.waiting, now < x.1) :
    d.call (.pop now) = (none, d) := by
  have hNone : (earliest? d.waiting).filter (·.1 ≤ now) = none := by
    refine Option.filter_eq_none_iff.mpr fun x hFirst => ?_
    obtain ⟨before, after, hList, _⟩ := earliest?_eq_some_iff.mp hFirst
    have hAhead := ahead x (by simp [hList])
    simpa using hAhead
  simp only [call, hNone]

theorem records_call (d : Diary ε) (c : AgendaCall ε) : d.Records c (d.call c) := by
  cases c with
  | push time event => exact .pushed (time, event)
  | pop now =>
      cases hFirst : earliest? d.waiting with
      | none =>
          have hAhead : ∀ x ∈ d.waiting, now < x.1 := by simp [earliest?_eq_none_iff.mp hFirst]
          rw [call_of_ahead hAhead]
          exact .quiet hAhead
      | some x =>
          obtain ⟨before, after, hList, hLeads⟩ := earliest?_eq_some_iff.mp hFirst
          by_cases hDue : x.1 ≤ now
          · rw [call_of_leads hList hLeads hDue]
            exact .popped hList hLeads hDue
          · have hAhead : ∀ y ∈ d.waiting, now < y.1 := fun y hy =>
              Nat.lt_of_lt_of_le (Nat.lt_of_not_le hDue) (hLeads.le y (hList ▸ hy))
            rw [call_of_ahead hAhead]
            exact .quiet hAhead

/-- Nothing is lost, and what comes for one instant comes out in the order in which it was put down. -/
structure Balanced (d : Diary ε) : Prop where
  perm : (d.delivered ++ d.waiting).Perm d.pushed
  inTurn : ∀ time, d.delivered.filter (·.1 = time) ++ d.waiting.filter (·.1 = time) =
    d.pushed.filter (·.1 = time)

theorem Balanced.call {d : Diary ε} (h : d.Balanced) (c : AgendaCall ε) : (d.call c).2.Balanced := by
  have hStep := d.records_call c
  generalize d.call c = result at hStep ⊢
  cases hStep with
  | pushed x =>
      constructor
      case perm =>
        rw [← List.append_assoc]
        exact h.perm.append_right [x]
      case inTurn =>
        intro time
        rw [List.filter_append, ← List.append_assoc, h.inTurn, List.filter_append]
  | @popped x before after now waiting_eq leads due =>
      constructor
      case perm =>
        have hPerm := h.perm
        rw [waiting_eq] at hPerm
        refine List.Perm.trans ?_ hPerm
        rw [List.append_assoc, List.singleton_append]
        exact List.perm_middle.symm.append_left d.delivered
      case inTurn =>
        intro time
        have hEarlier (hTime : x.1 = time) : before.filter (·.1 = time) = [] :=
          List.filter_eq_nil_iff.mpr fun y hy => by
            simpa [← hTime] using Nat.ne_of_gt (leads.before_lt y hy)
        rw [← h.inTurn, waiting_eq]
        by_cases hTime : x.1 = time
        · simp [List.filter_append, hEarlier hTime, hTime]
        · simp [List.filter_append, hTime]
  | quiet ahead => exact h

theorem pushed_run (d : Diary ε) (calls : List (AgendaCall ε)) :
    (Calls.run call d calls).pushed = d.pushed ++ calls.filterMap AgendaCall.appointment? := by
  induction calls generalizing d with
  | nil => simp
  | cons c rest ih =>
      rw [Calls.run_cons, ih]
      have hStep := d.records_call c
      generalize d.call c = result at hStep ⊢
      cases hStep <;> simp [AgendaCall.appointment?, List.filterMap_cons]

theorem delivered_run (d : Diary ε) (calls : List (AgendaCall ε)) :
    (Calls.run call d calls).delivered.map (·.2) =
      d.delivered.map (·.2) ++ (Calls.answers call d calls).filterMap id := by
  induction calls generalizing d with
  | nil => simp [Calls.answers]
  | cons c rest ih =>
      rw [Calls.run_cons, ih, Calls.answers]
      have hStep := d.records_call c
      generalize d.call c = result at hStep ⊢
      cases hStep <;> simp

theorem Balanced.run {d : Diary ε} (h : d.Balanced) (calls : List (AgendaCall ε)) :
    (Calls.run Diary.call d calls).Balanced :=
  Calls.run_preserves (P := Balanced) (fun _ c h => h.call c) h calls

end Diary

namespace Slot

theorem order_lt_of_time {a b : Slot} (h : a.time < b.time) : order a b = .lt := by
  have hBefore : compareOn Slot.time a b = .lt := Nat.compare_eq_lt.mpr h
  simp [order, compareLex, hBefore]

/-- What comes first although its ticket is later is earlier. -/
theorem time_lt_of_before {x y : Slot × ε} (h : Before x y) (later : y.1.ticket < x.1.ticket) :
    x.1.time < y.1.time := by
  have hLe : x.1.time ≤ y.1.time := time_le_of_order (by rw [show order x.1 y.1 = .lt from h]; rfl)
  rcases Nat.lt_or_eq_of_le hLe with hLt | hEq
  · exact hLt
  · exact absurd (order_lt (Nat.le_of_eq hEq.symm) later) h.asymm

/-- The order of slots is what a stable sort by time makes of the order of tickets. -/
theorem eq_mergeSort_of_before {sorted entries : List (Slot × ε)} (before : sorted.Pairwise Before)
    (perm : entries.Perm sorted) (rising : entries.Pairwise (·.1.ticket < ·.1.ticket)) :
    sorted = entries.mergeSort (fun x y => x.1.time ≤ y.1.time) := by
  have hTrans (x y z : Slot × ε) (hxy : decide (x.1.time ≤ y.1.time) = true)
      (hyz : decide (y.1.time ≤ z.1.time) = true) : decide (x.1.time ≤ z.1.time) = true :=
    decide_eq_true (Nat.le_trans (of_decide_eq_true hxy) (of_decide_eq_true hyz))
  have hTotal (x y : Slot × ε) :
      (decide (x.1.time ≤ y.1.time) || decide (y.1.time ≤ x.1.time)) = true := by
    simpa using Nat.le_total x.1.time y.1.time
  have hTimes := List.pairwise_mergeSort hTrans hTotal entries
  have hMerged : (entries.mergeSort fun x y => x.1.time ≤ y.1.time).Pairwise Before := by
    refine List.pairwise_iff_forall_sublist.mpr fun {x y} hPair => ?_
    have hLe := of_decide_eq_true (List.pairwise_iff_forall_sublist.mp hTimes hPair)
    rcases Nat.lt_or_eq_of_le hLe with hLt | hEq
    · exact order_lt_of_time hLt
    -- Of one instant, the sort has kept the order of the tickets.
    · have hSame := filter_mergeSort hTrans hTotal (p := fun z => z.1.time = x.1.time) entries
        (List.pairwise_of_forall_mem_list fun z hz w hw => by
          have hz := of_decide_eq_true (List.mem_filter.mp hz).2
          have hw := of_decide_eq_true (List.mem_filter.mp hw).2
          exact decide_eq_true (Nat.le_of_eq (hz.trans hw.symm)))
      have hKept := hPair.filter fun z => z.1.time = x.1.time
      rw [hSame] at hKept
      have hTickets := List.pairwise_iff_forall_sublist.mp rising
        (List.Sublist.trans (by simpa [hEq] using hKept) List.filter_sublist)
      exact order_lt hLe hTickets
  refine before.eq_of_mem_iff hMerged fun x => ?_
  rw [List.mem_mergeSort, perm.mem_iff]

end Slot

namespace Agenda

variable {a rest : Agenda ε}

/-- These are the events that wait in an agenda, in the order in which they were put down. -/
structure Lists (a : Agenda ε) (waiting : List (Appointment ε)) : Prop where
  numbered : a.Numbered
  exists_entries : ∃ entries : List (Slot × ε), entries.Perm (timed some a) ∧
    entries.Pairwise (·.1.ticket < ·.1.ticket) ∧ waiting = entries.map fun x => (x.1.time, x.2)

theorem timed_some (a : Agenda ε) : timed some a = a.events.toList := by
  simp [timed]

/-- An agenda gives out what is due in the order of its slots. -/
theorem drains_timed (a : Agenda ε) (now : Instant) :
    ∃ rest, Drains (popDue? · now) a (((timed some a).filter (·.1.time ≤ now)).map (·.2)) rest := by
  induction hList : timed some a generalizing a with
  | nil =>
      cases hPop : a.popDue? now with
      | none => exact ⟨a, .done hPop⟩
      | some out =>
          obtain ⟨event, rest⟩ := out
          obtain ⟨slot, _, hTimed⟩ := timed_popDue? (f := some) hPop
          cases hList.symm.trans hTimed
  | cons x items ih =>
      cases hPop : a.popDue? now with
      | none =>
          have hAhead : (x :: items).filter (·.1.time ≤ now) = [] := by
            refine List.filter_eq_nil_iff.mpr fun y hy => ?_
            obtain ⟨event, hAt, _⟩ := mem_timed.mp (hList ▸ hy)
            have hLater := popDue?_eq_none hPop ⟨y.1.ticket, hAt⟩
            simpa using hLater
          exact ⟨a, hAhead ▸ .done hPop⟩
      | some out =>
          obtain ⟨event, rest⟩ := out
          obtain ⟨slot, hDue, hTimed⟩ := timed_popDue? (f := some) hPop
          obtain ⟨rfl, rfl⟩ := List.cons.inj (hList.symm.trans hTimed)
          obtain ⟨last, hRest⟩ := ih rest rfl
          refine ⟨last, ?_⟩
          rw [List.filter_cons_of_pos (by simpa using hDue)]
          exact .next hPop hRest

theorem lists_empty : (empty : Agenda ε).Lists [] :=
  ⟨numbered_empty, [], by rw [timed_some]; exact .nil, .nil, rfl⟩

namespace Lists

variable {waiting : List (Appointment ε)}

theorem length_eq (h : a.Lists waiting) : a.size = waiting.length := by
  obtain ⟨entries, hPerm, _, rfl⟩ := h.exists_entries
  rw [List.length_map, hPerm.length_eq, timed_some, Std.TreeMap.length_toList, size]

theorem push (h : a.Lists waiting) (time : Instant) (event : ε) :
    (a.push time event).Lists (waiting ++ [(time, event)]) := by
  obtain ⟨entries, hPerm, hRising, rfl⟩ := h.exists_entries
  refine ⟨h.numbered.push time event, entries ++ [(⟨time, a.nextTicket⟩, event)], ?_, ?_, by simp⟩
  · have hMore := (hPerm.cons ((⟨time, a.nextTicket⟩, event) : Slot × ε)).trans
      (timed_push_perm h.numbered time event).symm
    exact (List.perm_append_singleton _ _).trans hMore
  · refine List.pairwise_append.mpr ⟨hRising, List.pairwise_singleton _ _, fun x hx y hy => ?_⟩
    rw [List.mem_singleton.mp hy]
    obtain ⟨_, hAt, _⟩ := mem_timed.mp (hPerm.mem_iff.mp hx)
    exact h.numbered _ (mem_of_getElem? hAt)

theorem popDue?_cases (h : a.Lists waiting) (now : Instant) :
    ((∀ x ∈ waiting, now < x.1) ∧ a.popDue? now = none) ∨
      ∃ before x after rest, waiting = before ++ x :: after ∧ Diary.Leads x before after ∧
        x.1 ≤ now ∧ a.popDue? now = some (x.2, rest) ∧ rest.Lists (before ++ after) := by
  obtain ⟨entries, hPerm, hRising, rfl⟩ := h.exists_entries
  cases hPop : a.popDue? now with
  | none =>
      refine Or.inl ⟨List.forall_mem_map.mpr fun x hx => ?_, rfl⟩
      obtain ⟨event, hAt, _⟩ := mem_timed.mp (hPerm.mem_iff.mp hx)
      exact popDue?_eq_none hPop ⟨x.1.ticket, hAt⟩
  | some out =>
      obtain ⟨event, rest⟩ := out
      obtain ⟨slot, hDue, hTimed⟩ := timed_popDue? (f := some) hPop
      have hSorted := timed_sorted some a
      rw [hTimed] at hPerm hSorted
      obtain ⟨before, after, rfl⟩ := List.append_of_mem (hPerm.mem_iff.mpr List.mem_cons_self)
      have hOthers : (before ++ after).Perm (timed some rest) :=
        (List.perm_middle.symm.trans hPerm).cons_inv
      have hFirst (y : Slot × ε) (hy : y ∈ before ++ after) : Slot.Before (slot, event) y :=
        (List.pairwise_cons.mp hSorted).1 y (hOthers.mem_iff.mp hy)
      obtain ⟨hBefore, hAfter, hBetween⟩ := List.pairwise_append.mp hRising
      have hTickets : (before ++ after).Pairwise (·.1.ticket < ·.1.ticket) :=
        hRising.sublist ((List.sublist_cons_self _ after).append_left before)
      have hLeads : Diary.Leads (slot.time, event) (before.map fun x => (x.1.time, x.2))
          (after.map fun x => (x.1.time, x.2)) := by
        constructor
        case before_lt =>
          refine List.forall_mem_map.mpr fun y hy => ?_
          exact Slot.time_lt_of_before (hFirst y (List.mem_append_left _ hy))
            (hBetween y hy _ List.mem_cons_self)
        case after_le =>
          refine List.forall_mem_map.mpr fun y hy => ?_
          have hOrder := hFirst y (List.mem_append_right _ hy)
          exact Slot.time_le_of_order (by rw [hOrder]; rfl)
      refine Or.inr ⟨_, (slot.time, event), _, rest, by simp, hLeads, hDue, rfl,
        h.numbered.popDue? hPop, before ++ after, hOthers, hTickets, by simp⟩

/-- An agenda that is emptied of what is due sorts it by time and keeps the order of equals. -/
theorem drains (h : a.Lists waiting) (now : Instant) :
    ∃ rest, Drains (popDue? · now) a
      (((waiting.filter (·.1 ≤ now)).mergeSort (·.1 ≤ ·.1)).map (·.2)) rest := by
  obtain ⟨entries, hPerm, hRising, rfl⟩ := h.exists_entries
  obtain ⟨rest, hDrains⟩ := drains_timed a now
  have hSorted := Slot.eq_mergeSort_of_before ((timed_sorted some a).filter (·.1.time ≤ now))
    (hPerm.filter _) (hRising.filter _)
  have hTimes : ((entries.filter (·.1.time ≤ now)).mergeSort (·.1.time ≤ ·.1.time)).map
        (fun x => (x.1.time, x.2)) =
      ((entries.map fun x => (x.1.time, x.2)).filter (·.1 ≤ now)).mergeSort (·.1 ≤ ·.1) := by
    rw [List.filter_map]
    exact List.map_mergeSort fun _ _ _ _ => rfl
  rw [hSorted] at hDrains
  rw [← hTimes, List.map_map]
  exact ⟨rest, hDrains⟩

theorem mem_iff (h : a.Lists waiting) (time : Instant) (event : ε) :
    (time, event) ∈ waiting ↔ a.Pending time event := by
  obtain ⟨entries, hPerm, _, rfl⟩ := h.exists_entries
  rw [List.mem_map]
  constructor
  · rintro ⟨⟨slot, other⟩, hEntry, hEq⟩
    cases hEq
    obtain ⟨_, hAt, hSame⟩ := mem_timed.mp (hPerm.mem_iff.mp hEntry)
    cases hSame
    exact ⟨slot.ticket, hAt⟩
  · rintro ⟨ticket, hAt⟩
    exact ⟨(⟨time, ticket⟩, event), hPerm.mem_iff.mpr (mem_timed.mpr ⟨event, hAt, rfl⟩), rfl⟩

theorem next?_eq (h : a.Lists waiting) : a.next? = (waiting.map (·.1)).min? := by
  symm
  cases hNext : a.next? with
  | none =>
      rw [List.min?_eq_none_iff, List.map_eq_nil_iff, List.eq_nil_iff_forall_not_mem]
      exact fun x hx => next?_eq_none hNext x.1 x.2 ((h.mem_iff x.1 x.2).mp hx)
  | some first =>
      obtain ⟨⟨event, hFirst⟩, hLeast⟩ := next?_eq_some hNext
      refine List.min?_eq_some_iff.mpr ⟨?_, List.forall_mem_map.mpr fun x hx => ?_⟩
      · exact List.mem_map.mpr ⟨(first, event), (h.mem_iff first event).mpr hFirst, rfl⟩
      · exact hLeast x.1 x.2 ((h.mem_iff x.1 x.2).mp hx)

end Lists

/-- An agenda, and the diary of the calls on it. -/
structure Follows (a : Agenda ε) (d : Diary ε) : Prop where
  lists : a.Lists d.waiting
  nextTicket_eq : a.nextTicket = d.pushed.length

theorem follows_empty : (empty : Agenda ε).Follows {} := ⟨lists_empty, rfl⟩

namespace Follows

variable {d : Diary ε}

theorem call (h : a.Follows d) (c : AgendaCall ε) :
    (a.call c).1 = (d.call c).1 ∧ (a.call c).2.Follows (d.call c).2 := by
  cases c with
  | push time event =>
      refine ⟨rfl, h.lists.push time event, ?_⟩
      have hCount := congrArg (· + 1) h.nextTicket_eq
      simpa [Agenda.call, Agenda.push, Diary.call] using hCount
  | pop now =>
      rcases h.lists.popDue?_cases now with
        ⟨hAhead, hNone⟩ | ⟨before, x, after, rest, hList, hLeads, hDue, hSome, hRest⟩
      · rw [Agenda.call, hNone, Diary.call_of_ahead hAhead]
        exact ⟨rfl, h⟩
      · rw [Agenda.call, hSome, Diary.call_of_leads hList hLeads hDue]
        obtain ⟨slot, _, _, _, rfl⟩ := popDue?_slot hSome
        exact ⟨rfl, hRest, h.nextTicket_eq⟩

end Follows

/-- Whatever is put down and taken out, in any order of instants, an agenda answers every call as a plain
list of what waits does. Nothing is lost and nothing comes out twice: what was put down has come out or
waits, for each instant in the order in which it was put down, and the agenda has as many events as were put
down and have not come out. At any instant the event that comes out is the first one of the earliest, if it is
due, and none comes out if all lie ahead. If all that is due is taken out, it comes in the order of a stable
sort by time. One ticket is given out for each event that is put down. -/
theorem delivers_once_in_order (calls : List (AgendaCall ε)) :
    let a := Calls.run call (empty : Agenda ε) calls
    let answers := Calls.answers call (empty : Agenda ε) calls
    let d := Calls.run Diary.call ({} : Diary ε) calls
    answers = Calls.answers Diary.call ({} : Diary ε) calls ∧
    d.pushed = calls.filterMap AgendaCall.appointment? ∧
    d.delivered.map (·.2) = answers.filterMap id ∧
    (d.delivered ++ d.waiting).Perm d.pushed ∧
    (∀ time, d.delivered.filter (·.1 = time) ++ d.waiting.filter (·.1 = time) =
      d.pushed.filter (·.1 = time)) ∧
    a.size = d.waiting.length ∧
    a.size + (answers.filterMap id).length = (calls.filterMap AgendaCall.appointment?).length ∧
    a.next? = (d.waiting.map (·.1)).min? ∧
    (∀ now, ((∀ x ∈ d.waiting, now < x.1) ∧ a.popDue? now = none) ∨
      ∃ before x after rest, d.waiting = before ++ x :: after ∧
        (∀ y ∈ before, x.1 < y.1) ∧ (∀ y ∈ after, x.1 ≤ y.1) ∧ x.1 ≤ now ∧
        a.popDue? now = some (x.2, rest)) ∧
    (∀ now, ∃ rest, Drains (popDue? · now) a
      (((d.waiting.filter (·.1 ≤ now)).mergeSort (·.1 ≤ ·.1)).map (·.2)) rest) ∧
    a.nextTicket = (calls.filterMap AgendaCall.appointment?).length := by
  intro a answers d
  obtain ⟨hAnswers, hFollows⟩ :=
    Calls.run_simulates (R := fun (a : Agenda ε) d => a.Follows d) (fun _ _ c h => h.call c) follows_empty calls
  have hStart : ({} : Diary ε).Balanced := ⟨.refl _, fun _ => rfl⟩
  have hBalanced := hStart.run calls
  have hPushed : d.pushed = calls.filterMap AgendaCall.appointment? := Diary.pushed_run {} calls
  have hDelivered : d.delivered.map (·.2) = answers.filterMap id :=
    (Diary.delivered_run {} calls).trans (congrArg (List.filterMap id) hAnswers.symm)
  have hSize : a.size = d.waiting.length := hFollows.lists.length_eq
  refine ⟨hAnswers, hPushed, hDelivered, hBalanced.perm, hBalanced.inTurn, hSize, ?_,
    hFollows.lists.next?_eq, fun now => ?_, hFollows.lists.drains, hPushed ▸ hFollows.nextTicket_eq⟩
  · have hLengths := hBalanced.perm.length_eq
    rw [List.length_append, Nat.add_comm] at hLengths
    rw [← hPushed, ← hDelivered, List.length_map, hSize]
    exact hLengths
  · rcases hFollows.lists.popDue?_cases now with
      hAhead | ⟨before, x, after, rest, hList, hLeads, hDue, hSome, _⟩
    · exact Or.inl hAhead
    · exact Or.inr ⟨before, x, after, rest, hList, hLeads.before_lt, hLeads.after_le, hDue, hSome⟩

/-- What is put down after a later event has come out still comes first, and equals stay in their order. -/
example :
    Calls.answers call (empty : Agenda Nat)
        [.push 3 1, .push 2 2, .push 3 3, .pop 2, .push 1 4, .pop 3, .pop 3, .pop 2] =
      [none, none, none, some 2, none, some 4, some 1, none] := by
  cbv

end Agenda

end LoadFeedback
