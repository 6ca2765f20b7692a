import LoadFeedback.Proofs.Flow.Window
import LoadFeedback.Proofs.LastSet
import LoadFeedback.Proofs.Sender.Reset

/-! A flow that starts anew forgets what it sent and measured, but not the limit that the application
had set: it goes on with the last one, and with no other trace of its history. -/
namespace LoadFeedback

variable {α : Type}

/-- How many packets the application makes available with a call. -/
def FlowEvent.limit? : FlowEvent → Option Nat
  | .limit packets => some packets
  | _ => none

namespace Flow

/-- What a flow is told from outside: its number, the size of its packets and its limit. -/
structure SameTerms (f g : Flow α) : Prop where
  id_eq : g.id = f.id
  packetSize_eq : g.packetSize = f.packetSize
  limit_eq : g.limit = f.limit

theorem SameTerms.trans {f g h : Flow α} (first : f.SameTerms g) (second : g.SameTerms h) :
    f.SameTerms h where
  id_eq := second.id_eq.trans first.id_eq
  packetSize_eq := second.packetSize_eq.trans first.packetSize_eq
  limit_eq := second.limit_eq.trans first.limit_eq

section

variable [Scalar α] {f g : Flow α}

theorem Departs.sameTerms {now : Instant} {paced : Bool} {packets : List Packet}
    (run : Departs now paced f packets g) : f.SameTerms g := by
  induction run with
  | done f | armed f => exact ⟨rfl, rfl, rfl⟩
  | next may rest ih => exact ⟨ih.id_eq, ih.packetSize_eq, ih.limit_eq⟩

theorem Settles.sameTerms {event : FlowEvent} (step : Settles f event g)
    (h : event.limit? = none) : f.SameTerms g := by
  cases step with
  | limited packets => cases h
  | unchanged | duplicate | accepted | timers | restarted => exact ⟨rfl, rfl, rfl⟩

/-- A reset comes to the same where the terms, the window's beginning and the first assumption about
the round trip are the same. -/
theorem SameTerms.reset_eq (h : f.SameTerms g) (hWindow : g.controller.reset = f.controller.reset)
    (hRoundTrip : g.roundTrip.reset = f.roundTrip.reset) : g.reset = f.reset := by
  simp only [reset, h.id_eq, h.packetSize_eq, h.limit_eq, hWindow, hRoundTrip]

/-- A flow that was built and not called yet is as a reset leaves it. -/
theorem reset_of_build {id : Nat} {config : SenderConfig α} {tables : WindowTables α}
    (built : build id config tables = .ok f) : f.reset = f ∧ f.limit = maxSeq := by
  obtain ⟨_, rfl⟩ := build_eq_ok_iff.mp built
  refine ⟨?_, rfl⟩
  simp only [reset, withController, Controller.reset_start]
  rfl

end

variable [PowerScalar α]

/-- A call changes nothing that a reset keeps, but for the limit. -/
theorem reset_after (f : Flow α) (event : FlowEvent) :
    (f.after event).2.reset = f.reset.setLimit (event.limit?.getD f.limit) := by
  cases hLimit : event.limit? with
  | some packets =>
      cases event with
      | limit packets => cases hLimit; rfl
      | send | ack | timer | timeout | close | reset => cases hLimit
  | none =>
      obtain ⟨_, _, g, hSettles, hDeparts⟩ := f.settles_after event
      have hTerms := (hSettles.sameTerms hLimit).trans hDeparts.sameTerms
      have hDrives := f.drives_after event
      have hWindow : (f.after event).2.controller.reset = f.controller.reset := by
        obtain ⟨events, hRun, _⟩ := hDrives.window
        rw [hRun, Controller.reset_run]
      have hRoundTrip : (f.after event).2.roundTrip.reset = f.roundTrip.reset := by
        by_cases hReset : event = .reset
        · subst hReset
          rfl
        · rcases hDrives.roundTrip hReset with hSame | ⟨_, _, _, _, _, hUpdate⟩
          · rw [hSame]
          · rw [hUpdate, RoundTrip.reset_update]
      exact hTerms.reset_eq hWindow hRoundTrip

theorem reset_history (f : Flow α) (events : List FlowEvent) : (f.history events).2.reset =
    f.reset.setLimit ((lastSet? FlowEvent.limit? events).getD f.limit) := by
  rw [history_snd]
  induction events generalizing f with
  | nil => rfl
  | cons event rest ih =>
      have hStep := f.reset_after event
      have hLimit : (f.after event).2.limit = event.limit?.getD f.limit := congrArg limit hStep
      rw [List.foldl_cons, ih, hStep, hLimit, lastSet?_cons, Option.getD_or]
      rfl

/-- Whatever was called on a flow and in whatever order: a reset brings it back to the flow that was
built, but for the limit, which stays the last one that the application set. So it is back at the
initial state exactly if this is the limit of a new flow, and once the application sets a limit again
nothing tells it from a new flow. -/
theorem reset_keeps_limit_alone {id : Nat} {config : SenderConfig α} {tables : WindowTables α}
    {start : Flow α} (built : build id config tables = .ok start) (events : List FlowEvent) :
    let f := (start.history events).2
    f.reset = start.setLimit ((lastSet? FlowEvent.limit? events).getD maxSeq) ∧
      (f.reset = start ↔ (lastSet? FlowEvent.limit? events).getD maxSeq = maxSeq) ∧
      ∀ packets, f.reset.setLimit packets = start.setLimit packets := by
  intro f
  obtain ⟨hNew, hLimit⟩ := reset_of_build built
  have hReset : f.reset = start.setLimit ((lastSet? FlowEvent.limit? events).getD maxSeq) := by
    have hHistory := start.reset_history events
    rwa [hNew, hLimit] at hHistory
  refine ⟨hReset, ⟨fun hSame => ?_, fun hSame => ?_⟩, fun packets => ?_⟩
  · exact (congrArg limit (hReset.symm.trans hSame)).trans hLimit
  · rw [hReset, hSame, ← hLimit]
    rfl
  · rw [hReset]
    rfl

/-- The application limits a flow to one packet and later lifts the limit again: the reset brings back
the new flow. -/
theorem reset_after_limit_lifted :
    let start := withController 1 1000 (.start (SenderConfig.standard : SenderConfig Float) .standard)
    let calls : List FlowEvent := [.limit 1, .send 0, .limit maxSeq, .close]
    build 1 .standard .standard = .ok start ∧ (start.history calls).2.nextSeq = 1 ∧
      (start.history calls).2.reset = start := by
  intro start calls
  have hValid : (SenderConfig.standard : SenderConfig Float).validate = .ok () :=
    SenderConfig.validate_eq_ok_iff.mpr (by decide +kernel)
  have hBuilt : build 1 .standard .standard = .ok start := build_eq_ok_iff.mpr ⟨hValid, rfl⟩
  exact ⟨hBuilt, by decide +kernel, (reset_keeps_limit_alone hBuilt calls).2.1.mpr rfl⟩

/-- A flow of which the application made one packet available is reset. It is no new flow: it sends one
packet where a new one sends two. -/
theorem limit_survives_reset :
    let start := withController 1 1000 (.start (SenderConfig.standard : SenderConfig Float) .standard)
    let f := (start.history [.limit 1, .send 0]).2
    let later := Span.millis 1
    build 1 .standard .standard = .ok start ∧ f.reset ≠ start ∧
      (f.reset.after (.send later)).1.length = 1 ∧ (start.after (.send later)).1.length = 2 := by
  intro start f later
  have hValid : (SenderConfig.standard : SenderConfig Float).validate = .ok () :=
    SenderConfig.validate_eq_ok_iff.mpr (by decide +kernel)
  refine ⟨build_eq_ok_iff.mpr ⟨hValid, rfl⟩, fun hSame => ?_, by decide +kernel, by decide +kernel⟩
  have hLimit : f.reset.limit = maxSeq := congrArg limit hSame
  exact absurd hLimit (by decide +kernel)

end Flow
end LoadFeedback
