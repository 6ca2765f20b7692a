import LoadFeedback.Proofs.Flow.Event

/-! The packets of a flow are numbered without a gap, each leaves inside the window and the limit of
its moment, and the two tallies of the flow and of its window stay in step. -/
namespace LoadFeedback

/-- The packets that still count after a call. A reset forgets them all. -/
def FlowEvent.kept (sent : List Packet) : FlowEvent → List Packet
  | .reset => []
  | _ => sent

theorem FlowEvent.kept_of_ne (event : FlowEvent) (notReset : event ≠ .reset) (sent : List Packet) :
    event.kept sent = sent := by
  cases event <;> first | rfl | exact absurd rfl notReset

namespace Flow

variable {α : Type}

/-- The packets that left since the last reset, and what the flow has written down about them. -/
structure Accounted (f : Flow α) (sent : List Packet) : Prop where
  numbered : sent.map (·.seq) = List.range f.nextSeq
  initial : ∀ p ∈ sent, p.kind = .data ∧ p.feedback = .initial
  acked_le : f.acked ≤ f.nextSeq
  nextSeq_le : f.nextSeq ≤ maxSeq
  sent_eq : f.tally.sent = f.nextSeq
  acks_le : f.tally.acks ≤ f.acked
  acks_eq : f.tally.acks = f.controller.state.tally.acks
  paced_eq : f.tally.paced = f.controller.state.tally.pacedPackets
  paced_le : f.tally.paced ≤ f.tally.sent

/-- The packet left at a moment of the call that ended in the flow `f`, when its number was below the
acknowledged ones plus the window, and below the limit. Until the end of the call nothing has moved
these bounds. -/
def SentWithin [Scalar α] (f : Flow α) (p : Packet) : Prop :=
  ∃ (moment : Flow α) (now : Instant) (paced : Bool) (rest : List Packet),
    p = (moment.sendOne now paced).1 ∧ Departs now paced (moment.sendOne now paced).2 rest f ∧
    p.seq < min maxSeq (moment.acked + Scalar.floor moment.controller.window) ∧
    p.seq < moment.limit ∧ f.acked = moment.acked ∧
    f.controller.window = moment.controller.window ∧ f.limit = moment.limit

/-- A packet may leave only below the window and the limit, and never as the last number. -/
theorem maySend_iff [Scalar α] (f : Flow α) : f.maySend = true ↔
    f.nextSeq < min maxSeq (f.acked + Scalar.floor f.controller.window) ∧ f.nextSeq < f.limit := by
  rw [maySend, decide_eq_true_eq, allowance, Nat.lt_min]

/-- Every packet that departs is inside the window and the limit. -/
theorem Departs.sentWithin [Scalar α] {f g : Flow α} {now : Instant} {paced : Bool}
    {packets : List Packet} (run : Departs now paced f packets g) :
    ∀ p ∈ packets, g.SentWithin p := by
  induction run with
  | done f | armed f => exact List.forall_mem_nil _
  | @next f g packets may rest ih =>
      obtain ⟨hWindow, hLimit⟩ := f.maySend_iff.mp may
      obtain ⟨_, hKept⟩ := (Departs.next may rest).keeps
      have hFirst : g.SentWithin (f.sendOne now paced).1 :=
        ⟨f, now, paced, packets, rfl, rest, hWindow, hLimit, hKept⟩
      exact List.forall_mem_cons.mpr ⟨hFirst, ih⟩

namespace Accounted

variable {f g : Flow α} {sent : List Packet}

theorem of_start (hSeq : f.nextSeq = 0) (hAcked : f.acked = 0) (hTally : f.tally = {})
    (hWindow : f.controller.state.tally = {}) : f.Accounted [] := by
  constructor <;> simp [hSeq, hAcked, hTally, hWindow]

theorem acked_eq_zero (h : f.Accounted []) : f.acked = 0 := by
  have hSeq : 0 = f.nextSeq := by simpa using congrArg List.length h.numbered
  exact Nat.le_zero.mp (hSeq ▸ h.acked_le)

/-- A window that agrees with the present one can take its place. -/
theorem withAgreeing (h : f.Accounted sent) {controller : Controller α}
    (hAgrees : f.controller.state.Agrees controller.state) :
    Accounted { f with controller := controller } sent :=
  { h with
    acks_eq := h.acks_eq.trans hAgrees.acks_eq.symm
    paced_eq := h.paced_eq.trans hAgrees.paced_eq.symm }

section

variable [Scalar α]

/-- One more packet takes the next number, which is not the largest one. -/
theorem sendOne (h : f.Accounted sent) (may : f.maySend = true) (now : Instant) (paced : Bool) :
    (f.sendOne now paced).2.Accounted (sent ++ [(f.sendOne now paced).1]) := by
  have hBelow : f.nextSeq < maxSeq := (Nat.lt_min.mp (f.maySend_iff.mp may).1).1
  obtain ⟨_, hAcks, hPaced⟩ := f.controller.state_sent paced
  have hSent := h.sent_eq
  have hPacedEq := h.paced_eq
  have hPacedLe := h.paced_le
  constructor
  case numbered => simp [Flow.sendOne, Packet.data, h.numbered, List.range_succ]
  case initial =>
    intro p hp
    rcases List.mem_append.mp hp with hp | hp
    · exact h.initial p hp
    · rw [List.mem_singleton.mp hp]
      exact ⟨rfl, rfl⟩
  case acked_le => exact Nat.le_succ_of_le h.acked_le
  case nextSeq_le => exact hBelow
  case sent_eq => exact congrArg (· + 1) hSent
  case acks_le => exact h.acks_le
  case acks_eq => exact h.acks_eq.trans hAcks.symm
  case paced_eq =>
    simp only [Flow.sendOne, hPaced]
    split <;> omega
  case paced_le =>
    simp only [Flow.sendOne]
    split <;> omega

theorem departs (h : f.Accounted sent) {now : Instant} {paced : Bool} {packets : List Packet}
    (run : Departs now paced f packets g) : g.Accounted (sent ++ packets) := by
  induction run generalizing sent with
  | done f => rwa [List.append_nil]
  | armed f =>
      rw [List.append_nil]
      exact h.withAgreeing (f.controller.agrees_pace now)
  | next may rest ih =>
      have hNext := ih (h.sendOne may now _)
      rwa [List.append_assoc, List.singleton_append] at hNext

/-- Bookkeeping keeps the account. A new acknowledgment counts once on both sides, and moves the
acknowledged count by one at least. -/
theorem settles (h : f.Accounted sent) {event : FlowEvent} (step : Settles f event g) :
    g.Accounted (event.kept sent) := by
  cases step with
  | unchanged event notReset => rwa [event.kept_of_ne notReset]
  | duplicate hOld => exact { h with }
  | accepted estimate controller isNew wasSent hAcks hPaced =>
      have hAckedLe := h.acks_le
      exact
        { h with
          acked_le := wasSent
          acks_le := Nat.le_trans (Nat.succ_le_succ hAckedLe) isNew
          acks_eq := (congrArg (· + 1) h.acks_eq).trans hAcks.symm
          paced_eq := h.paced_eq.trans hPaced.symm }
  | timers event notReset controller hAgrees =>
      rw [event.kept_of_ne notReset]
      exact h.withAgreeing hAgrees
  | limited packets => exact { h with }
  | restarted => exact of_start rfl rfl rfl f.controller.tally_reset

end

variable [PowerScalar α]

theorem after (h : f.Accounted sent) (event : FlowEvent) :
    (f.after event).2.Accounted (event.kept sent ++ (f.after event).1) := by
  obtain ⟨now, paced, g, hSettles, hDeparts⟩ := f.settles_after event
  exact (h.settles hSettles).departs hDeparts

end Accounted

/-- A flow that was built has the settings of its window, and has sent nothing. -/
theorem accounted_of_build [Scalar α] {id : Nat} {config : SenderConfig α} {tables : WindowTables α}
    {f : Flow α} (built : build id config tables = .ok f) : f.Accounted [] := by
  obtain ⟨_, rfl⟩ := build_eq_ok_iff.mp built
  exact .of_start rfl rfl rfl (Controller.tally_start config tables)

section

variable [PowerScalar α]

/-- One more call: the packets returned since the last reset, and the flow. -/
def extend (past : List Packet × Flow α) (event : FlowEvent) : List Packet × Flow α :=
  (event.kept past.1 ++ (past.2.after event).1, (past.2.after event).2)

/-- A list of calls, the first one first. -/
def history (f : Flow α) (events : List FlowEvent) : List Packet × Flow α :=
  events.foldl extend ([], f)

/-- The flow after some calls does not depend on which packets are remembered. -/
theorem history_snd (f : Flow α) (events : List FlowEvent) :
    (f.history events).2 = events.foldl (fun f event => (f.after event).2) f := by
  suffices ∀ past : List Packet × Flow α, (events.foldl extend past).2 =
      events.foldl (fun f event => (f.after event).2) past.2 from this ([], f)
  induction events with
  | nil => exact fun _ => rfl
  | cons event rest ih => exact fun past => ih (extend past event)

/-- What every call of a list keeps, the list keeps. -/
theorem history_keeps {P : Flow α → Prop} {f : Flow α} {events : List FlowEvent} (h : P f)
    (hStep : ∀ f, ∀ event ∈ events, P f → P (f.after event).2) : P (f.history events).2 := by
  rw [history_snd]
  induction events generalizing f with
  | nil => exact h
  | cons event rest ih =>
      exact ih (hStep f event List.mem_cons_self h) fun f later hLater =>
        hStep f later (List.mem_cons_of_mem event hLater)

theorem Accounted.foldl {past : List Packet × Flow α} (h : past.2.Accounted past.1)
    (events : List FlowEvent) :
    (events.foldl extend past).2.Accounted (events.foldl extend past).1 := by
  induction events generalizing past with
  | nil => exact h
  | cons event rest ih => exact ih (h.after event)

/-- Whatever is called in whatever order, the packets since the last reset stay accounted for, and
each of them was inside the window and the limit when it left. -/
theorem packets_numbered_within_window {id : Nat} {config : SenderConfig α}
    {tables : WindowTables α} {f : Flow α} (built : build id config tables = .ok f)
    (events : List FlowEvent) :
    (f.history events).2.Accounted (f.history events).1 ∧
    ∀ event, ∀ p ∈ ((f.history events).2.after event).1,
      ((f.history events).2.after event).2.SentWithin p := by
  refine ⟨(accounted_of_build built).foldl events, fun event => ?_⟩
  obtain ⟨now, paced, g, _, hDeparts⟩ := (f.history events).2.settles_after event
  exact hDeparts.sentWithin

end

/-- By default two packets leave at once, and the third one leaves inside the window that the first
acknowledgment opens. -/
theorem packets_numbered_by_defaults :
    let f : Flow Float := withController 1 1000 (.start .standard .standard)
    let first := (Packet.ack 1 1 40 (Span.millis 80) 0).withFeedback (.ofCode .high)
    let opened := (f.history [.send 0]).2.after (.ack first (Span.millis 80))
    build 1 .standard .standard = .ok f ∧ opened.1.map (·.seq) = [2] ∧
      (∀ p ∈ opened.1, opened.2.SentWithin p) ∧
      (f.history [.send 0, .ack first (Span.millis 80)]).1.map (·.seq) = [0, 1, 2] ∧
      (f.history [.send 0, .ack first (Span.millis 80)]).2.nextSeq = 3 := by
  intro f first opened
  have hBuilt : build 1 .standard .standard = .ok f := rfl
  have hSent := packets_numbered_within_window hBuilt [.send 0]
  have hBoth := packets_numbered_within_window hBuilt [.send 0, .ack first (Span.millis 80)]
  have hNext : (f.history [.send 0, .ack first (Span.millis 80)]).2.nextSeq = 3 := by decide +kernel
  refine ⟨hBuilt, by decide +kernel, hSent.2 (.ack first (Span.millis 80)), ?_, hNext⟩
  rw [hBoth.1.numbered, hNext]
  rfl

end Flow
end LoadFeedback
