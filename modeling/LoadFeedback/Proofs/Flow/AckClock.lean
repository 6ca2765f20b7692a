import LoadFeedback.Proofs.Flow.Acknowledgment

/-! What keeps a flow going. A call that may let packets leave ends with some packet unacknowledged, or
with nothing that may leave, and timers do not undo that. -/
namespace LoadFeedback.Flow

variable {α : Type}

section

variable [Scalar α] {f g : Flow α} {now : Instant} {paced : Bool} {packets : List Packet}

/-- Packets that depart take the next numbers. -/
theorem Departs.numbers (run : Departs now paced f packets g) :
    packets.map (·.seq) = List.range' f.nextSeq packets.length ∧
      g.nextSeq = f.nextSeq + packets.length := by
  induction run with
  | done | armed => exact ⟨rfl, rfl⟩
  | @next f g packets may rest ih =>
      obtain ⟨hNumbers, hNext⟩ := ih
      rw [nextSeq_sendOne] at hNumbers hNext
      constructor
      · rw [List.map_cons, hNumbers, List.length_cons, List.range'_succ]
        rfl
      · rw [hNext, List.length_cons]
        omega

theorem Departs.duplicates (run : Departs now paced f packets g) :
    g.tally.duplicates = f.tally.duplicates := by
  induction run with
  | done | armed => rfl
  | next may rest ih => exact ih

/-- A packet is not acknowledged, or none may leave. -/
def Running (f : Flow α) : Prop := f.acked < f.nextSeq ∨ f.maySend = false

/-- A flow that is running waits for an acknowledgment, unless its window has no room for a packet or
its packets are used up. -/
theorem Running.cases (h : f.Running) (hAcked : f.acked ≤ f.nextSeq) : f.acked < f.nextSeq ∨
    Scalar.floor f.controller.window = 0 ∨ maxSeq ≤ f.nextSeq ∨ f.limit ≤ f.nextSeq := by
  rcases h with hWaits | hClosed
  · exact Or.inl hWaits
  · have hBounds : ¬(f.nextSeq < min maxSeq (f.acked + Scalar.floor f.controller.window) ∧
        f.nextSeq < f.limit) := by
      rw [← maySend_iff, hClosed]
      exact Bool.false_ne_true
    omega

theorem running_sendMany (h : f.acked ≤ f.nextSeq) (now : Instant) : (f.sendMany now).2.Running := by
  have hDeparts := departs_sendMany f now
  obtain ⟨_, hAcked, _⟩ := hDeparts.keeps
  cases hMay : f.maySend with
  | false => exact Or.inr (by simp [sendMany, hMay])
  | true =>
      have hSome : 0 < (f.sendMany now).1.length := by
        unfold sendMany
        rw [if_pos hMay]
        split
        · exact Nat.one_pos
        · rw [burst, dif_pos hMay]
          exact Nat.succ_pos _
      have hNext := hDeparts.numbers.2
      exact Or.inl (by omega)

/-- The window, and the bounds of the numbers, stay. -/
structure Steady (f g : Flow α) : Prop where
  acked_eq : g.acked = f.acked
  nextSeq_le : f.nextSeq ≤ g.nextSeq
  window_eq : g.controller.window = f.controller.window
  limit_eq : g.limit = f.limit
  duplicates_eq : g.tally.duplicates = f.tally.duplicates

theorem Departs.steady (run : Departs now paced f packets g) : f.Steady g := by
  obtain ⟨hNext, hAcked, hWindow, hLimit⟩ := run.keeps
  exact ⟨hAcked, hNext, hWindow, hLimit, run.duplicates⟩

omit [Scalar α] in
theorem Steady.trans {h : Flow α} (first : f.Steady g) (second : g.Steady h) : f.Steady h where
  acked_eq := second.acked_eq.trans first.acked_eq
  nextSeq_le := Nat.le_trans first.nextSeq_le second.nextSeq_le
  window_eq := second.window_eq.trans first.window_eq
  limit_eq := second.limit_eq.trans first.limit_eq
  duplicates_eq := second.duplicates_eq.trans first.duplicates_eq

theorem Steady.running (step : f.Steady g) (hAcked : f.acked ≤ f.nextSeq) (h : f.Running) :
    g.Running := by
  have hSame := step.acked_eq
  rcases Nat.lt_or_eq_of_le step.nextSeq_le with hMore | hNext
  · exact Or.inl (by omega)
  · have hBound : g.allowance = f.allowance := by
      simp only [allowance, hSame, step.window_eq, step.limit_eq]
    have hMay : g.maySend = f.maySend := by rw [maySend, maySend, hBound, ← hNext]
    rw [Running, hSame, ← hNext, hMay]
    exact h

theorem steady_onTimer {timer : Timer} (h : f.onTimer timer now = (.ok packets, g)) :
    f.Steady g := by
  have hWindow := f.controller.agrees_onTimer timer now
  unfold onTimer at h
  cases hResult : f.controller.onTimer timer now with
  | mk outcome controller =>
      rw [hResult] at h hWindow
      cases outcome with
      | error fault => cases h
      | ok released =>
          cases h
          have hTaken : f.Steady { f with controller := controller } :=
            ⟨rfl, Nat.le_refl _, hWindow.window_eq, rfl, rfl⟩
          exact hTaken.trans (departs_release _ released now).steady

end

variable [PowerScalar α] {f g : Flow α} {p : Packet} {now : Instant} {packets : List Packet}

/-- Whatever call lets packets leave, they take the next numbers. -/
theorem numbers_after (f : Flow α) {event : FlowEvent} (notReset : event ≠ .reset) :
    (f.after event).1.map (·.seq) = List.range' f.nextSeq (f.after event).1.length ∧
      (f.after event).2.nextSeq = f.nextSeq + (f.after event).1.length := by
  obtain ⟨now, paced, g, hSettles, hDeparts⟩ := f.settles_after event
  rw [← (hSettles.keeps notReset).1]
  exact hDeparts.numbers

theorem onAck_of_old (h : f.onAck p now = (.ok packets, g)) (hOld : p.seq ≤ f.acked) :
    packets = [] ∧
      g = { f with tally := { f.tally with duplicates := f.tally.duplicates + 1 } } := by
  rcases f.onAck_cases p now with ⟨fault, hResult, _⟩ | ⟨_, hResult⟩ | ⟨next, hSettles, hAcked, hResult⟩
  · cases hResult.symm.trans h
  · cases hResult.symm.trans h
    exact ⟨rfl, rfl⟩
  · have hTaken : ¬f.Refuses p := fun hRefused => by
      obtain ⟨fault, hResult⟩ := onAck_of_refuses hRefused now
      cases hResult.symm.trans h
    obtain ⟨hAck, hSent, _⟩ := cases_of_not_refuses hTaken
    cases (onAck_of_seq_le_acked hAck hSent hOld now).symm.trans h
    exact ⟨rfl, rfl⟩

/-- A new acknowledgment moves the acknowledged count to its number, and the flow goes on. -/
theorem onAck_of_new (h : f.onAck p now = (.ok packets, g)) (isNew : f.acked < p.seq) :
    g.acked = p.seq ∧ g.limit = f.limit ∧ g.tally.duplicates = f.tally.duplicates ∧ g.Running := by
  have hTaken : ¬f.Refuses p := fun hRefused => by
    obtain ⟨fault, hResult⟩ := onAck_of_refuses hRefused now
    cases hResult.symm.trans h
  obtain ⟨_, hSent, hOld | ⟨_, hCheck⟩⟩ := cases_of_not_refuses hTaken
  · omega
  · obtain ⟨window, _, hAccept⟩ := accept_eq_of_check now hCheck
    rw [onAck_eq_accept isNew hSent hCheck now, hAccept] at h
    cases h
    have hBook : (f.book p now).acked = p.seq ∧ (f.book p now).nextSeq = f.nextSeq ∧
        (f.book p now).limit = f.limit ∧
        (f.book p now).tally.duplicates = f.tally.duplicates := by
      unfold book learn
      split <;> exact ⟨rfl, rfl, rfl, rfl⟩
    obtain ⟨hAcked, hNext, hLimit, hDuplicates⟩ := hBook
    have hSteady := (departs_sendMany { f.book p now with controller := window } now).steady
    refine ⟨hSteady.acked_eq.trans hAcked, hSteady.limit_eq.trans hLimit,
      hSteady.duplicates_eq.trans hDuplicates, running_sendMany ?_ now⟩
    simpa only [hAcked, hNext] using hSent

end LoadFeedback.Flow
