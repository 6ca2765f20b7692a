import Mathlib.Algebra.GroupWithZero.Nat
import LoadFeedback.Proofs.Agenda.Channel

/-! What the events to come weigh together, by what they are and when they happen. An event that is put
down adds its weight, and one that comes out takes its weight away. -/
namespace LoadFeedback.Agenda

variable {ε : Type} {a rest : Agenda ε}

/-- An event that is put down is one more. -/
theorem timed_push_perm (h : a.Numbered) (time : Instant) (event : ε) :
    (timed some (a.push time event)).Perm ((⟨time, a.nextTicket⟩, event) :: timed some a) := by
  have hNodup (a : Agenda ε) : (timed some a).Nodup := by
    refine List.Pairwise.imp ?_ (timed_sorted some a)
    rintro x _ hBefore rfl
    exact Slot.Before.irrefl x hBefore
  have hNew : ((⟨time, a.nextTicket⟩, event) : Slot × ε) ∉ timed some a := fun hMem => by
    obtain ⟨old, hAt, _⟩ := mem_timed.mp hMem
    exact Nat.lt_irrefl _ (h _ (mem_of_getElem? hAt))
  refine (List.perm_ext_iff_of_nodup (hNodup _) (List.nodup_cons.mpr ⟨hNew, hNodup a⟩)).mpr ?_
  rintro ⟨slot, other⟩
  simp only [List.mem_cons, mem_timed, getElem?_push h, Option.some.injEq, exists_eq_right,
    Prod.mk.injEq]
  exact or_comm

theorem Pending.push (h : a.Numbered) {time : Instant} {event : ε} (pending : a.Pending time event)
    (later : Instant) (other : ε) : (a.push later other).Pending time event := by
  obtain ⟨ticket, hAt⟩ := pending
  exact ⟨ticket, (getElem?_push h later other _ event).mpr (Or.inl hAt)⟩

theorem pending_push_self (h : a.Numbered) (time : Instant) (event : ε) :
    (a.push time event).Pending time event :=
  ⟨a.nextTicket, (getElem?_push h time event _ event).mpr (Or.inr ⟨rfl, rfl⟩)⟩

theorem Pending.foldl_push {β : Type} (h : a.Numbered) {time : Instant} {event : ε}
    (pending : a.Pending time event) (items : List β) (later : Instant) (f : β → ε) :
    (items.foldl (fun a x => a.push later (f x)) a).Pending time event := by
  induction items generalizing a with
  | nil => exact pending
  | cons x items ih => exact ih (h.push later (f x)) (pending.push h later (f x))

/-- An event that is not the one that comes out is still to come. -/
theorem Pending.popDue? {now time : Instant} {first event : ε} (pending : a.Pending time event)
    (due : a.popDue? now = some (first, rest)) (other : event ≠ first) : rest.Pending time event := by
  obtain ⟨ticket, hAt⟩ := pending
  obtain ⟨slot, _, hTimed⟩ := timed_popDue? (f := some) due
  have hMem : ((⟨time, ticket⟩, event) : Slot × ε) ∈ timed some a := mem_timed.mpr ⟨event, hAt, rfl⟩
  rw [hTimed] at hMem
  rcases List.mem_cons.mp hMem with hFirst | hRest
  · exact absurd (congrArg Prod.snd hFirst) other
  · obtain ⟨_, hLater, hSame⟩ := mem_timed.mp hRest
    cases hSame
    exact ⟨ticket, hLater⟩

/-- The weight of all events to come. -/
def weigh (weight : Instant → ε → Nat) (a : Agenda ε) : Nat :=
  ((timed some a).map fun x => weight x.1.time x.2).sum

theorem weigh_push (weight : Instant → ε → Nat) (h : a.Numbered) (time : Instant) (event : ε) :
    (a.push time event).weigh weight = weight time event + a.weigh weight := by
  have hPerm := (timed_push_perm h time event).map fun x => weight x.1.time x.2
  rw [weigh, hPerm.sum_nat, List.map_cons, List.sum_cons, weigh]

/-- Events that are put down together and weigh the same. -/
theorem weigh_foldl_push {β : Type} {weight : Instant → ε → Nat} {f : β → ε} {time : Instant}
    {each : Nat} (hEach : ∀ x, weight time (f x) = each) (h : a.Numbered) (items : List β) :
    (items.foldl (fun a x => a.push time (f x)) a).weigh weight =
      each * items.length + a.weigh weight := by
  induction items generalizing a with
  | nil => simp
  | cons x items ih =>
      rw [List.foldl_cons, ih (h.push time (f x)), weigh_push weight h, hEach, List.length_cons,
        Nat.mul_succ]
      omega

theorem weigh_popDue? (weight : Instant → ε → Nat) {now : Instant} {event : ε}
    (due : a.popDue? now = some (event, rest)) :
    ∃ time ≤ now, a.weigh weight = weight time event + rest.weigh weight := by
  obtain ⟨slot, hTime, hTimed⟩ := timed_popDue? (f := some) due
  refine ⟨slot.time, hTime, ?_⟩
  rw [weigh, hTimed]
  rfl

end LoadFeedback.Agenda
