import LoadFeedback.Proofs.Agenda
import LoadFeedback.Proofs.Link.Event
import LoadFeedback.Proofs.Simulation.Handlers

/-! A simulation before its start: the link idles with both timers armed, the flows have sent nothing,
and only their beginnings and the first report are to come. -/
namespace LoadFeedback

variable {α : Type}

theorem Controller.isCoded_start [Scalar α] (config : SenderConfig α) (tables : WindowTables α) :
    (start config tables).isCoded = (config.law == .coded) := by
  unfold start
  cases config.law <;> rfl

namespace Simulation

theorem foldl_note_eq {β : Type} (record : β → Record α) (xs : List β) (s : Simulation α) :
    ∃ journal, xs.foldl (fun s x => s.note (record x)) s = { s with journal := journal } := by
  induction xs generalizing s with
  | nil => exact ⟨s.journal, rfl⟩
  | cons x rest ih =>
      obtain ⟨first, hFirst⟩ := s.noteOption_eq (some (record x))
      obtain ⟨journal, hRest⟩ := ih { s with journal := first }
      refine ⟨journal, ?_⟩
      rw [List.foldl_cons, ← hRest, ← hFirst]
      rfl

theorem plan_eq (s : Simulation α) (first : Record α) {β : Type} (record : β → Record α)
    (xs : List β) :
    ∃ journal, (xs.foldl (fun s x => s.note (record x)) (s.note first)).syncLink =
      { s with
        schedule := copyDeadlines s.schedule linkOwner linkTimers s.link.meter.deadline?
        journal := journal } := by
  obtain ⟨one, hFirst⟩ := s.noteOption_eq (some first)
  obtain ⟨journal, hAll⟩ := foldl_note_eq record xs (s.note first)
  refine ⟨journal, ?_⟩
  rw [hAll, show s.note first = _ from hFirst]
  rfl

theorem mapM_eq_ok {β γ ε : Type} {f : β → Except ε γ} {xs : List β} {ys : List γ}
    (h : xs.mapM f = .ok ys) (i : Nat) (y : γ) (hy : ys[i]? = some y) :
    ∃ x, xs[i]? = some x ∧ f x = .ok y := by
  induction xs generalizing ys i with
  | nil =>
      cases h
      simp at hy
  | cons x xs ih =>
      rw [List.mapM_cons] at h
      cases hFirst : f x with
      | error fault => simp [hFirst, bind, Except.bind] at h
      | ok first =>
          cases hRest : xs.mapM f with
          | error fault => simp [hFirst, hRest, bind, Except.bind] at h
          | ok rest =>
              simp only [hFirst, hRest, bind, Except.bind, pure, Except.pure, Except.ok.injEq] at h
              subst h
              cases i with
              | zero =>
                  cases hy
                  exact ⟨x, rfl, hFirst⟩
              | succ i => exact ih hRest i hy

variable [Scalar α]

theorem build_eq {o : Options α} {tables : WindowTables α} {s : Simulation α}
    (built : build o tables = .ok s) :
    ∃ capacity sessions journal, (linkConfig o).validate = .ok capacity ∧
      buildSessions (senderConfig o) tables (List.range' 1 o.flows) = .ok sessions ∧
      s =
        { options := o
          link := ⟨.empty o.buffer, .start (linkConfig o) capacity 0⟩
          linkBusy := false
          sessions := sessions
          schedule := copyDeadlines .empty linkOwner linkTimers
            (Meter.start (linkConfig o) capacity 0).deadline?
          agenda := firstEvents o (List.range' 1 o.flows)
          now := 0
          turn := .advance
          utilizations := []
          queueLengths := []
          transmitted := 0
          journal := journal } := by
  unfold build at built
  cases hLink : LinkQueue.build o.buffer (linkConfig o) 0 with
  | error fault =>
      rw [hLink] at built
      cases built
  | ok link =>
      rw [hLink] at built
      cases hSessions : buildSessions (senderConfig o) tables (List.range' 1 o.flows) with
      | error fault =>
          simp only [bind, Except.bind] at built
          rw [hSessions] at built
          cases built
      | ok sessions =>
          simp only [bind, Except.bind] at built
          rw [hSessions] at built
          cases built
          obtain ⟨capacity, hValid, rfl⟩ := MeteredQueue.build_eq_ok_iff.mp hLink
          obtain ⟨journal, hPlan⟩ := plan_eq _ _ (fun id => .planned id o.roundTrip) _
          exact ⟨capacity, sessions, journal, hValid, rfl, hPlan⟩

/-- Settings that the link and the senders accept are enough for a simulation. -/
theorem exists_of_validate {o : Options α} {capacity : α}
    (link : (linkConfig o).validate = .ok capacity) (sender : (senderConfig o).validate = .ok ())
    (tables : WindowTables α) : ∃ s, build o tables = .ok s := by
  have hLink : LinkQueue.build o.buffer (linkConfig o) 0 =
      .ok ⟨.empty o.buffer, .start (linkConfig o) capacity 0⟩ :=
    MeteredQueue.build_eq_ok_iff.mpr ⟨capacity, link, rfl⟩
  have hSession : (fun id => (Flow.build id (senderConfig o) tables).map fun flow =>
      (⟨flow, .start Acknowledger.defaultAckSize, none, []⟩ : Session α)) =
      fun id => pure ⟨.withController id (senderConfig o).packetSize (.start (senderConfig o) tables),
        .start Acknowledger.defaultAckSize, none, []⟩ := by
    funext id
    rw [Flow.build_eq_ok_iff.mpr ⟨sender, rfl⟩]
    rfl
  unfold build buildSessions
  rw [hLink, hSession]
  simp only [bind, Except.bind, List.mapM_pure]
  exact ⟨_, rfl⟩

/-- Sessions are numbered from one. Each has a new flow, and a receiver to which nothing has come. -/
theorem session?_of_build {o : Options α} {tables : WindowTables α} {s : Simulation α}
    (built : build o tables = .ok s) {id : Nat} {session : Session α}
    (found : s.session? id = some session) :
    session.flow = .withController id (senderConfig o).packetSize (.start (senderConfig o) tables) ∧
      session.sink = .start Acknowledger.defaultAckSize := by
  obtain ⟨_, sessions, _, _, hSessions, rfl⟩ := build_eq built
  cases id with
  | zero => cases found
  | succ i =>
      obtain ⟨number, hNumber, hSession⟩ := mapM_eq_ok hSessions i session found
      obtain ⟨hPlace, hAt⟩ := List.getElem?_eq_some_iff.mp hNumber
      obtain rfl : i + 1 = number := by
        rw [← hAt, List.getElem_range', Nat.one_mul, Nat.add_comm]
      cases hFlow : Flow.build (i + 1) (senderConfig o) tables with
      | error fault =>
          rw [hFlow] at hSession
          cases hSession
      | ok flow =>
          rw [hFlow] at hSession
          cases hSession
          exact ⟨(Flow.build_eq_ok_iff.mp hFlow).2, rfl⟩

omit [Scalar α] in
theorem pending_firstEvents {o : Options α} {flows : List Nat} {time : Instant} {event : Event}
    (h : (firstEvents o flows).Pending time event) :
    (∃ id ∈ flows, event = .start id) ∨ event = .report := by
  rcases Agenda.pending_push h with ⟨_, hReport⟩ | hStart
  · exact Or.inr hReport
  · rcases Agenda.pending_foldl_push hStart with ⟨_, hStart⟩ | hEmpty
    · exact Or.inl hStart
    · exact absurd hEmpty (Agenda.not_pending_empty time event)

end Simulation
end LoadFeedback
