import LoadFeedback.Proofs.Flow.SequenceSpace

/-! An acknowledgment is taken entirely or not at all. The flow books it before the window sees it,
so nothing may be left half done there: what the check lets through, the window takes. -/
namespace LoadFeedback

variable {α : Type}

namespace Flow

variable [PowerScalar α]

/-- The flow with a new acknowledgment booked and its round trip learned, before the window takes
it. -/
def book (f : Flow α) (ack : Packet) (now : Instant) : Flow α :=
  { f with acked := ack.seq, tally := { f.tally with acks := f.tally.acks + 1 } }.learn ack now

theorem check_book (f : Flow α) (ack p : Packet) (now : Instant) :
    (f.book ack now).controller.check p = f.controller.check p := by
  obtain ⟨_, controller, hLearn, _, hSame⟩ := learn_cases
    { f with acked := ack.seq, tally := { f.tally with acks := f.tally.acks + 1 } } ack now
  rw [book, hLearn]
  exact hSame p

/-- The flow has counted a new acknowledgment: it is the last one, its echo is one sample more of the
round trip, and the flow and its window have both counted one more. -/
structure Counts (f : Flow α) (p : Packet) (now : Instant) (g : Flow α) : Prop where
  acked_eq : g.acked = p.seq
  acks_eq : g.tally.acks = f.tally.acks + 1
  duplicates_eq : g.tally.duplicates = f.tally.duplicates
  windowAcks_eq : g.controller.state.tally.acks = f.controller.state.tally.acks + 1
  unechoed : p.echo = none → g.roundTrip = f.roundTrip
  echoed : ∀ sentAt, p.echo = some sentAt →
    g.roundTrip = f.roundTrip.update (now - sentAt) ∧
      g.roundTrip.samples = f.roundTrip.samples + 1

theorem counts_of_book (f : Flow α) (p : Packet) (now : Instant) {window : Controller α}
    (taken : window.state.tally.acks = (f.book p now).controller.state.tally.acks + 1) :
    f.Counts p now { f.book p now with controller := window } := by
  unfold book learn at taken ⊢
  split at taken
  · next hEcho =>
      exact ⟨rfl, rfl, rfl, taken, fun _ => rfl, fun _ hSome => absurd (hEcho.symm.trans hSome) nofun⟩
  · next sentAt hEcho =>
      have hMeasured := f.controller.agrees_measured (f.roundTrip.update (now - sentAt))
      rw [hMeasured.acks_eq] at taken
      refine ⟨rfl, rfl, rfl, taken, fun hNone => absurd (hEcho.symm.trans hNone) nofun, ?_⟩
      intro other hOther
      cases hEcho.symm.trans hOther
      exact ⟨rfl, f.roundTrip.samples_update _⟩

/-- Packets that depart undo nothing of it. -/
theorem Counts.departs {f g h : Flow α} {p : Packet} {now later : Instant} {paced : Bool}
    {packets : List Packet} (counts : f.Counts p now g) (run : Departs later paced g packets h) :
    f.Counts p now h := by
  induction run with
  | done => exact counts
  | armed g =>
      exact { counts with
        windowAcks_eq := (g.controller.agrees_pace later).acks_eq.trans counts.windowAcks_eq }
  | @next g h packets may rest ih =>
      exact ih { counts with
        windowAcks_eq := (g.controller.state_sent paced).2.1.trans counts.windowAcks_eq }

/-- Once the check is passed, the window takes the acknowledgment, and then packets may leave. -/
theorem accept_eq_of_check {f : Flow α} {p : Packet} (now : Instant)
    (hCheck : f.controller.check p = .ok ()) :
    ∃ window, (f.book p now).controller.onAck p now = (.ok (), window) ∧
      f.accept p now =
        (.ok ({ f.book p now with controller := window }.sendMany now).1,
          ({ f.book p now with controller := window }.sendMany now).2) := by
  obtain ⟨window, hTaken, _⟩ := Controller.onAck_of_check ((f.check_book p p now).trans hCheck) now
  refine ⟨window, hTaken, ?_⟩
  rw [book] at hTaken
  simp only [accept, book, hTaken]

theorem counts_accept {f : Flow α} {p : Packet} (now : Instant)
    (hCheck : f.controller.check p = .ok ()) : f.Counts p now (f.accept p now).2 := by
  obtain ⟨window, hTaken, hAccept⟩ := accept_eq_of_check now hCheck
  obtain ⟨counted, hCounted, hAcks, _⟩ :=
    Controller.onAck_of_check ((f.check_book p p now).trans hCheck) now
  cases hTaken.symm.trans hCounted
  rw [hAccept]
  exact (f.counts_of_book p now hAcks).departs
    (departs_sendMany { f.book p now with controller := window } now)

/-- Why a flow refuses a packet that is given to it as an acknowledgment. -/
def Refuses (f : Flow α) (p : Packet) : Prop :=
  p.isData = true ∨ f.nextSeq < p.seq ∨
    (f.acked < p.seq ∧ f.controller.isCoded = true ∧ p.feedback.code? = none)

theorem onAck_of_refuses {f : Flow α} {p : Packet} (h : f.Refuses p) (now : Instant) :
    ∃ fault, f.onAck p now = (.error fault, f) := by
  unfold onAck
  split
  · exact ⟨_, rfl⟩
  · next hValid =>
      have ⟨hAck, hSent⟩ : p.isData = false ∧ p.seq ≤ f.nextSeq := by simpa using hValid
      rcases h with hData | hUnsent | ⟨hNew, hCoded, hCode⟩
      · exact absurd (hData.symm.trans hAck) nofun
      · omega
      · rw [if_neg (Nat.not_le_of_lt hNew)]
        rcases f.controller.check_cases p with hOk | ⟨fault, hFault⟩
        · exact absurd hCode (((f.controller.check_eq_ok_iff p).mp hOk).2 hCoded)
        · exact ⟨fault, by simp only [hFault]⟩

theorem onAck_of_seq_le_acked {f : Flow α} {p : Packet} (hAck : p.isData = false)
    (hSent : p.seq ≤ f.nextSeq) (hOld : p.seq ≤ f.acked) (now : Instant) : f.onAck p now =
      (.ok [], { f with tally := { f.tally with duplicates := f.tally.duplicates + 1 } }) := by
  have hValid : (p.isData || decide (f.nextSeq < p.seq)) = false := by simp [hAck, hSent]
  simp only [onAck, hValid, hOld, Bool.false_eq_true, ↓reduceIte]

theorem onAck_eq_accept {f : Flow α} {p : Packet} (hNew : f.acked < p.seq)
    (hSent : p.seq ≤ f.nextSeq) (hCheck : f.controller.check p = .ok ()) (now : Instant) :
    f.onAck p now = f.accept p now := by
  have hAck := ((f.controller.check_eq_ok_iff p).mp hCheck).1
  have hValid : (p.isData || decide (f.nextSeq < p.seq)) = false := by simp [hAck, hSent]
  simp only [onAck, hValid, Nat.not_le_of_lt hNew, hCheck, Bool.false_eq_true, ↓reduceIte]

omit [PowerScalar α] in
/-- What is not refused is old, and then only counted, or new, and then taken by the window. -/
theorem cases_of_not_refuses {f : Flow α} {p : Packet} (h : ¬f.Refuses p) :
    p.isData = false ∧ p.seq ≤ f.nextSeq ∧
      (p.seq ≤ f.acked ∨ f.acked < p.seq ∧ f.controller.check p = .ok ()) := by
  obtain ⟨hData, hSent, hUsable⟩ : ¬p.isData = true ∧ ¬f.nextSeq < p.seq ∧
      ¬(f.acked < p.seq ∧ f.controller.isCoded = true ∧ p.feedback.code? = none) := by
    simpa only [Refuses, not_or] using h
  have hAck : p.isData = false := by simpa using hData
  refine ⟨hAck, Nat.le_of_not_lt hSent, ?_⟩
  by_cases hNew : f.acked < p.seq
  · refine Or.inr ⟨hNew, (f.controller.check_eq_ok_iff p).mpr ⟨hAck, fun hCoded hCode => ?_⟩⟩
    exact hUsable ⟨hNew, hCoded, hCode⟩
  · exact Or.inl (Nat.le_of_not_lt hNew)

theorem refuses_iff (f : Flow α) (p : Packet) (now : Instant) :
    (∃ fault, (f.onAck p now).1 = .error fault) ↔ f.Refuses p := by
  constructor
  · rintro ⟨fault, hFault⟩
    refine Classical.byContradiction fun hTaken => ?_
    obtain ⟨hAck, hSent, hOld | ⟨hNew, hCheck⟩⟩ := cases_of_not_refuses hTaken
    · rw [onAck_of_seq_le_acked hAck hSent hOld now] at hFault
      cases hFault
    · obtain ⟨_, _, hAccept⟩ := accept_eq_of_check now hCheck
      rw [onAck_eq_accept hNew hSent hCheck now, hAccept] at hFault
      cases hFault
  · intro h
    obtain ⟨fault, hResult⟩ := onAck_of_refuses h now
    exact ⟨fault, by rw [hResult]⟩

/-- Only a reset or an acknowledgment that is in order moves the acknowledged count. -/
theorem acked_le_after {f : Flow α} (h : f.acked ≤ f.nextSeq) (event : FlowEvent) :
    (f.after event).2.acked ≤ (f.after event).2.nextSeq := by
  obtain ⟨now, paced, g, hSettles, hDeparts⟩ := f.settles_after event
  obtain ⟨hRises, hSame, _⟩ := hDeparts.keeps
  have hSettled : g.acked ≤ g.nextSeq := by
    cases hSettles with
    | accepted estimate controller isNew wasSent => exact wasSent
    | unchanged | duplicate | timers | limited => exact h
    | restarted => exact Nat.le_refl 0
  omega

theorem acked_le_history {f : Flow α} (h : f.acked ≤ f.nextSeq) (events : List FlowEvent) :
    (f.history events).2.acked ≤ (f.history events).2.nextSeq :=
  history_keeps (P := fun f => f.acked ≤ f.nextSeq) h fun _ event _ hPast => acked_le_after hPast event

/-- After any calls of a flow under either law, `onAck` refuses a packet exactly for the reasons in
`Refuses`, and then nothing has changed. An acknowledgment of what was acknowledged before is counted
and does nothing else, whatever feedback it brings. A new one that passes the check is booked, taken
by the window without a refusal, and followed by the packets that may then leave. Then the flow, its
round trip and its window have all counted it. -/
theorem onAck_all_or_nothing (id packetSize : Nat) (controller : Controller α)
    (events : List FlowEvent) (p : Packet) (now : Instant) :
    let f := ((withController id packetSize controller).history events).2
    ((∃ fault, (f.onAck p now).1 = .error fault) ↔
      p.isData = true ∨ f.nextSeq < p.seq ∨
        (f.acked < p.seq ∧ f.controller.isCoded = true ∧ p.feedback.code? = none)) ∧
    (∀ fault g, f.onAck p now = (.error fault, g) → g = f) ∧
    (p.isData = false → p.seq ≤ f.acked → f.onAck p now =
      (.ok [], { f with tally := { f.tally with duplicates := f.tally.duplicates + 1 } })) ∧
    (f.acked < p.seq → p.seq ≤ f.nextSeq → f.controller.check p = .ok () →
      ∃ window, (f.book p now).controller.onAck p now = (.ok (), window) ∧
        f.onAck p now = (.ok ({ f.book p now with controller := window }.sendMany now).1,
          ({ f.book p now with controller := window }.sendMany now).2) ∧
        f.Counts p now (f.onAck p now).2) := by
  intro f
  have hAcked : f.acked ≤ f.nextSeq := acked_le_history (Nat.le_refl 0) events
  refine ⟨f.refuses_iff p now, fun fault g hResult => ?_, fun hAck hOld => ?_,
    fun hNew hSent hCheck => ?_⟩
  · obtain ⟨_, hRefused⟩ := onAck_of_refuses ((f.refuses_iff p now).mp ⟨fault, by rw [hResult]⟩) now
    rw [hRefused] at hResult
    cases hResult
    rfl
  · exact onAck_of_seq_le_acked hAck (Nat.le_trans hOld hAcked) hOld now
  · obtain ⟨window, hTaken, hAccept⟩ := accept_eq_of_check now hCheck
    rw [onAck_eq_accept hNew hSent hCheck now]
    exact ⟨window, hTaken, hAccept, counts_accept now hCheck⟩

end Flow
end LoadFeedback
