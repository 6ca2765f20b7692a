import Mathlib
import LoadFeedback.Proofs.Simulation.Conveyance
import LoadFeedback.Proofs.Simulation.Soundness

/-! No packet appears, vanishes or comes twice. The strand of a flow says where each of its packets is,
and the strands of all flows, added up, say how many there are. -/
namespace LoadFeedback

/-- Where a data packet can be, once it was sent. -/
inductive Place where
  | accepted
  | leaving
  | sending
  | queued
  | arriving
  /-- The queue of the link refused it. -/
  | dropped
  deriving DecidableEq

/-- All places, in the order of the path. -/
def Place.all : List Place := [.accepted, .leaving, .sending, .queued, .arriving, .dropped]

theorem Place.mem_all (place : Place) : place ∈ all := by
  cases place <;> decide

theorem sum_map_ite_eq (n : Nat) (ids : List Nat) :
    (ids.map fun id => if n = id then 1 else 0).sum = ids.count n := by
  induction ids with
  | nil => rfl
  | cons id rest ih =>
      rw [List.map_cons, List.sum_cons, ih, List.count_cons]
      by_cases hId : n = id
      · simp [hId, Nat.add_comm]
      · simp [hId, Ne.symm hId]

/-- Every packet belongs to one flow. -/
theorem sum_length_numbersOf {ids : List Nat} (nodup : ids.Nodup) {packets : List Packet}
    (known : ∀ p ∈ packets, p.flow ∈ ids) :
    (ids.map fun id => (numbersOf id packets).length).sum = packets.length := by
  induction packets with
  | nil => simp
  | cons p rest ih =>
      obtain ⟨hFirst, hRest⟩ := List.forall_mem_cons.mp known
      have hSplit (id : Nat) : (numbersOf id (p :: rest)).length =
          (if p.flow = id then 1 else 0) + (numbersOf id rest).length := by
        rw [numbersOf_cons]
        split <;> simp [Nat.add_comm]
      simp only [hSplit, List.sum_map_add, ih hRest, sum_map_ite_eq,
        List.count_eq_one_of_mem nodup hFirst, List.length_cons, Nat.add_comm]

namespace Simulation

variable {α : Type} {s t : Simulation α} {l : Ledger}

/-- The data packets at a place. -/
def packetsAt (s : Simulation α) (l : Ledger) : Place → List Packet
  | .accepted => l.delivered
  | .leaving => s.agenda.on .leaving
  | .sending => s.agenda.on .sending
  | .queued => s.link.queue.toList
  | .arriving => s.agenda.on .arriving
  | .dropped => l.lost

/-- The places of the packets of a flow, one after the other, are its strand. -/
theorem flatMap_packetsAt (s : Simulation α) (l : Ledger) (id : Nat) :
    Place.all.flatMap (fun place => numbersOf id (s.packetsAt l place)) =
      (s.strand l id).delivered ++ (s.strand l id).underway ++ (s.strand l id).lost := by
  simp only [Place.all, packetsAt, strand, underway, List.flatMap_cons, List.flatMap_nil,
    numbersOf_append, List.append_nil, List.append_assoc]

/-- Every number that was given out is at one place, and there once. -/
theorem existsUnique_place {id : Nat} {session : Session α}
    (h : (s.strand l id).Conserves session) :
    (∀ seq, seq < session.flow.nextSeq ↔ ∃ place, seq ∈ numbersOf id (s.packetsAt l place)) ∧
    (∀ place, (numbersOf id (s.packetsAt l place)).Nodup) ∧
    ∀ seq place other, seq ∈ numbersOf id (s.packetsAt l place) →
      seq ∈ numbersOf id (s.packetsAt l other) → place = other := by
  have hPerm := h.complete
  rw [← flatMap_packetsAt] at hPerm
  have hNodup := hPerm.nodup_iff.mpr List.nodup_range
  obtain ⟨hEach, hApart⟩ := List.nodup_flatMap.mp hNodup
  refine ⟨fun seq => ?_, fun place => hEach place place.mem_all, ?_⟩
  · rw [← List.mem_range, ← hPerm.mem_iff, List.mem_flatMap]
    exact ⟨fun ⟨place, _, hSeq⟩ => ⟨place, hSeq⟩, fun ⟨place, hSeq⟩ => ⟨place, place.mem_all, hSeq⟩⟩
  · intro seq place other hPlace hOther
    by_contra hNe
    have hSymm : Std.Symm (Function.onFun List.Disjoint
        fun place => numbersOf id (s.packetsAt l place)) :=
      ⟨fun _ _ hDisjoint _ hOne hTwo => hDisjoint hTwo hOne⟩
    exact hApart.forall place.mem_all other.mem_all hNe hPlace hOther

theorem sum_sessions (f : Session α → Nat) (g : Nat → Nat)
    (h : ∀ id session, s.session? id = some session → f session = g id) :
    (s.sessions.map f).sum = ((List.range' 1 s.sessions.length).map g).sum := by
  refine congrArg List.sum (List.ext_getElem (by simp) fun i hLeft hRight => ?_)
  have hPlace : i < s.sessions.length := by simpa using hLeft
  have hFound : s.session? (i + 1) = some s.sessions[i] := List.getElem?_eq_getElem hPlace
  simpa [Nat.add_comm] using h (i + 1) _ hFound

section

variable [PowerScalar α] {o : Options α} {tables : WindowTables α} {moves : List Move}

omit [PowerScalar α] in
theorem Addressed.underway {ids : List Nat} (h : s.Addressed ids l) :
    ∀ p ∈ s.underway, p.flow ∈ ids := by
  have hLeg (leg : Leg) (p : Packet) (hp : p ∈ s.agenda.on leg) : p.flow ∈ ids := by
    obtain ⟨time, hPending⟩ := Agenda.mem_on.mp hp
    exact h.pending time _ p.flow hPending (by cases leg <;> rfl)
  intro p hp
  simp only [Simulation.underway, List.mem_append] at hp
  rcases hp with ((hp | hp) | hp) | hp
  · exact hLeg _ p hp
  · exact hLeg _ p hp
  · exact h.queued p hp
  · exact hLeg _ p hp

/-- What all flows have sent is on its way, or has come to its receiver, or is lost. -/
theorem Conveys.sum_sent {ids : List Nat} (h : Conveys o ids moves l s) :
    (s.sessions.map (·.flow.tally.sent)).sum =
      l.delivered.length + s.underway.length + l.lost.length ∧
    (s.sessions.map (·.sink.tally.acks)).sum = l.delivered.length := by
  have hNodup : ids.Nodup := h.addressed.ids_eq ▸ List.nodup_range'
  have hEntered := h.addressed.entered
  have hDelivered := sum_length_numbersOf hNodup fun p hp =>
    hEntered p (List.mem_append_left _ hp)
  have hLost := sum_length_numbersOf hNodup fun p hp => hEntered p (List.mem_append_right _ hp)
  have hUnderway := sum_length_numbersOf hNodup h.addressed.underway
  constructor
  · have hSent (id : Nat) (session : Session α) (hFound : s.session? id = some session) :
        session.flow.tally.sent = (numbersOf id l.delivered).length +
          (numbersOf id s.underway).length + (numbersOf id l.lost).length := by
      have hConserves := (h.strands id session hFound).1
      obtain ⟨sent, hAccounted⟩ := hConserves.accounted
      rw [hAccounted.sent_eq]
      exact hConserves.length_eq
    rw [s.sum_sessions (·.flow.tally.sent) _ hSent, h.addressed.ids_eq]
    simp only [List.sum_map_add, hDelivered, hUnderway, hLost]
  · rw [s.sum_sessions (·.sink.tally.acks) _ fun id session hFound =>
      (h.strands id session hFound).1.acks_eq, h.addressed.ids_eq]
    exact hDelivered

/-- In every state of a simulation that was built, the link is busy exactly while one packet is being
sent, there is never more than one, and none waits while the link is idle. Each number that a flow has
given out is at exactly one place, and there once; those that were accepted are the ones that the
receiver has, and it has discarded none. Added up, the packets that were sent are those dropped, those
queued, those on the legs of the path, and those answered. -/
theorem packets_conserved (built : build o tables = .ok s) (course : Course s moves t) :
    (∃ l, Recorded s moves l t ∧
      (t.linkBusy = true ↔ (t.agenda.on .sending).length = 1) ∧
      (t.agenda.on .sending).length ≤ 1 ∧
      (t.linkBusy = false → t.link.queue.toList = []) ∧
      (∀ id session, t.session? id = some session →
        (∀ seq < session.flow.nextSeq, ∃! place, seq ∈ numbersOf id (t.packetsAt l place)) ∧
        (∀ place, (numbersOf id (t.packetsAt l place)).Nodup ∧
          ∀ seq ∈ numbersOf id (t.packetsAt l place), seq < session.flow.nextSeq) ∧
        (∀ seq, session.sink.acknowledger.assembly.contains seq = true ↔
          seq ∈ numbersOf id (t.packetsAt l .accepted)) ∧
        session.sink.tally.discarded = 0) ∧
      t.link.queue.drops = (t.packetsAt l .dropped).length ∧
      t.link.queue.size = (t.packetsAt l .queued).length ∧
      (t.sessions.map (·.flow.tally.sent)).sum =
        t.link.queue.drops + t.link.queue.size + (t.agenda.on .arriving).length +
          (t.agenda.on .sending).length + (t.agenda.on .leaving).length +
          (t.sessions.map (·.sink.tally.acks)).sum) ∧
    ∀ steps, ∃ moves u, Course s moves u ∧
      (run steps s = .running u ∨ run steps s = .finished u) := by
  refine ⟨?_, course_of_run built⟩
  obtain ⟨l, hRecorded⟩ := course.recorded
  have h := conveys_of_recorded built hRecorded
  have hBusy := h.disciplined.busy
  refine ⟨l, hRecorded, ?_, ?_, h.disciplined.idle, fun id session hFound => ?_,
    h.disciplined.drops_eq, h.disciplined.sized, ?_⟩
  · rw [hBusy]
    cases t.linkBusy <;> simp
  · rw [hBusy]
    split <;> omega
  · have hConserves := (h.strands id session hFound).1
    obtain ⟨hSent, hOnce, hApart⟩ := existsUnique_place hConserves
    refine ⟨fun seq hSeq => ?_, fun place => ⟨hOnce place, fun seq hSeq => ?_⟩,
      hConserves.holds.contains_iff, hConserves.discarded_eq⟩
    · obtain ⟨place, hPlace⟩ := (hSent seq).mp hSeq
      exact ⟨place, hPlace, fun other hOther => hApart seq other place hOther hPlace⟩
    · exact (hSent seq).mpr ⟨place, hSeq⟩
  · obtain ⟨hSent, hAcks⟩ := h.sum_sent
    have hSize : t.link.queue.size = t.link.queue.toList.length := h.disciplined.sized
    have hDrops := h.disciplined.drops_eq
    simp only [underway, List.length_append] at hSent
    omega

end

/-- With the settings that a simulation has unless told otherwise, wherever a run stands. -/
theorem standard_conserves_packets :
    ∃ s : Simulation Float, build .standard (.standard : WindowTables Float) = .ok s ∧
      ∀ steps, ∃ moves t l, Recorded s moves l t ∧
        (run steps s = .running t ∨ run steps s = .finished t) ∧
        (t.linkBusy = false → t.link.queue.toList = []) ∧
        ∀ id session, t.session? id = some session → ∀ seq < session.flow.nextSeq,
          ∃! place, seq ∈ numbersOf id (t.packetsAt l place) := by
  obtain ⟨s, hBuilt⟩ := exists_standard
  refine ⟨s, hBuilt, fun steps => ?_⟩
  obtain ⟨moves, t, hCourse, hRun⟩ := course_of_run hBuilt steps
  obtain ⟨⟨l, hRecorded, _, _, hIdle, hFlows, _⟩, _⟩ := packets_conserved hBuilt hCourse
  exact ⟨moves, t, l, hRecorded, hRun, hIdle, fun id session hFound => (hFlows id session hFound).1⟩

end Simulation
end LoadFeedback
