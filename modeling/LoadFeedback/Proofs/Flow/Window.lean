import LoadFeedback.Proofs.Flow.Acknowledgment
import LoadFeedback.Proofs.Sender.RoundTrip

/-! Whatever is called on a flow, its window sees events of its own and nothing else. So what every run
of a window keeps is kept in a flow. -/
namespace LoadFeedback.Flow

variable {α : Type} [PowerScalar α] {f g h : Flow α} {event : FlowEvent}

/-- The estimate that a flow makes of the round trip when it takes a packet. -/
def Learns (f : Flow α) (event : FlowEvent) (estimate : RoundTrip) : Prop :=
  ∃ p now sentAt, event = .ack p now ∧ p.echo = some sentAt ∧
    estimate = f.roundTrip.update (now - sentAt)

/-- On the way from one flow to another the window went through events, and the only estimates in them
are those that the first flow learned. -/
structure Drives (f : Flow α) (event : FlowEvent) (g : Flow α) : Prop where
  window : ∃ events, g.controller = f.controller.run events ∧
    ∀ estimate, .measured estimate ∈ events → f.Learns event estimate
  roundTrip : event ≠ .reset → g.roundTrip = f.roundTrip ∨ f.Learns event g.roundTrip

namespace Drives

theorem refl (f : Flow α) (event : FlowEvent) : f.Drives event f where
  window := ⟨[], rfl, fun _ hMeasured => absurd hMeasured List.not_mem_nil⟩
  roundTrip _ := Or.inl rfl

/-- One more event for the window. -/
theorem next (prior : f.Drives event g) (last : WindowEvent)
    (window : h.controller = g.controller.after last)
    (hLast : ∀ estimate, last = .measured estimate → f.Learns event estimate)
    (roundTrip : event ≠ .reset → h.roundTrip = g.roundTrip ∨ f.Learns event h.roundTrip) :
    f.Drives event h := by
  obtain ⟨events, hRun, hEvents⟩ := prior.window
  constructor
  · refine ⟨events ++ [last], ?_, fun estimate hMeasured => ?_⟩
    · rw [window, hRun, Controller.run_append]
      rfl
    · rcases List.mem_append.mp hMeasured with hOld | hNew
      · exact hEvents estimate hOld
      · exact hLast estimate (List.mem_singleton.mp hNew).symm
  · intro hReset
    rcases roundTrip hReset with hSame | hLearns
    · rw [hSame]
      exact prior.roundTrip hReset
    · exact Or.inr hLearns

/-- Packets that depart are counted in the window, and the pacing timer may be armed. -/
theorem departs (prior : f.Drives event g) {now : Instant} {paced : Bool} {packets : List Packet}
    (run : Departs now paced g packets h) : f.Drives event h := by
  induction run with
  | done g => exact prior
  | armed g => exact prior.next (.pace now) rfl (by simp) fun _ => Or.inl rfl
  | next may rest ih => exact ih (prior.next (.sent paced) rfl (by simp) fun _ => Or.inl rfl)

theorem afterTimers {result : Attempt (Controller α) Bool} (last : WindowEvent)
    (hResult : result.2 = f.controller.after last) (hLast : ∀ estimate, last ≠ .measured estimate)
    (now : Instant) : f.Drives event (returned (f.afterTimers now result)).2 := by
  obtain ⟨outcome, controller⟩ := result
  have hTaken : f.Drives event { f with controller := controller } :=
    (refl f event).next last hResult (fun estimate hMeasured => absurd hMeasured (hLast estimate))
      fun _ => Or.inl rfl
  cases outcome with
  | ok released => exact hTaken.departs (departs_release _ released now)
  | error fault => exact hTaken

/-- The round trip is learned before the window takes the acknowledgment. -/
theorem book (f : Flow α) (p : Packet) (now : Instant) : f.Drives (.ack p now) (f.book p now) := by
  unfold Flow.book learn
  split
  · exact { refl f _ with }
  · next sentAt hEcho =>
      have hLearns : f.Learns (.ack p now) (f.roundTrip.update (now - sentAt)) :=
        ⟨p, now, sentAt, rfl, hEcho, rfl⟩
      refine (refl f _).next (.measured (f.roundTrip.update (now - sentAt))) rfl ?_ fun _ =>
        Or.inr hLearns
      intro estimate hMeasured
      cases hMeasured
      exact hLearns

theorem accept {f : Flow α} {p : Packet} (hCheck : f.controller.check p = .ok ()) (now : Instant) :
    f.Drives (.ack p now) (returned (f.accept p now)).2 := by
  obtain ⟨window, hTaken, hAccept⟩ := accept_eq_of_check now hCheck
  have hResult : window = (f.book p now).controller.after (.ack p now) := by
    rw [Controller.after, hTaken]
  have hWindow : f.Drives (.ack p now) { f.book p now with controller := window } :=
    (book f p now).next (.ack p now) hResult (by simp) fun _ => Or.inl rfl
  rw [hAccept]
  exact hWindow.departs (departs_sendMany { f.book p now with controller := window } now)

end Drives

/-- Every call is a list of events for the window. -/
theorem drives_after (f : Flow α) (event : FlowEvent) : f.Drives event (f.after event).2 := by
  have hSame := Drives.refl f event
  cases event with
  | send now => exact hSame.departs (departs_sendMany f now)
  | ack p now =>
      simp only [after, onAck]
      split
      · exact hSame
      · split
        · exact { hSame with }
        · split
          · next hCheck => exact .accept hCheck now
          · exact hSame
  | timer timer now => exact .afterTimers (.timer timer now) rfl (by simp) now
  | timeout now => exact .afterTimers (.timeout now) rfl (by simp) now
  | limit packets => exact { hSame with }
  | close => exact hSame.next .close rfl (by simp) fun _ => Or.inl rfl
  | reset => exact hSame.next .reset rfl (by simp) fun hReset => absurd rfl hReset

/-- A window of one packet or more lets a packet leave while none is in flight, up to the limit. -/
theorem maySend_of_inFlight (hWindow : 1 ≤ Scalar.floor f.controller.window) (hIdle : f.inFlight = 0)
    (hLimit : f.nextSeq < min f.limit maxSeq) : f.maySend = true := by
  rw [maySend_iff]
  have hAcked : f.nextSeq ≤ f.acked := Nat.le_of_sub_eq_zero hIdle
  omega

variable {config : SenderConfig α} {tables : WindowTables α} {estimates : RoundTrip → Prop}

theorem inBounds_after (h : f.controller.InBounds config tables)
    (sound : config.Sound tables estimates) (laws : KeepsUnit α)
    (hLearned : ∀ estimate, f.Learns event estimate → estimates estimate) :
    (f.after event).2.controller.InBounds config tables := by
  obtain ⟨events, hRun, hEvents⟩ := (f.drives_after event).window
  rw [hRun]
  exact h.run sound laws events fun estimate hMeasured => hLearned estimate (hEvents estimate hMeasured)

/-- Where every estimate will do, every list of calls keeps the window within its bounds. -/
theorem inBounds_history (h : f.controller.InBounds config tables)
    (sound : config.Sound tables fun _ => True) (laws : KeepsUnit α) (events : List FlowEvent) :
    (f.history events).2.controller.InBounds config tables :=
  history_keeps (P := fun f => f.controller.InBounds config tables) h
    fun _ _ _ hPast => inBounds_after hPast sound laws fun _ _ => trivial

variable {longest : Span}

/-- A window within its bounds, in a flow that has seen no round trip above a span. -/
structure Sustained (f : Flow α) (config : SenderConfig α) (tables : WindowTables α)
    (longest : Span) : Prop where
  window : f.controller.InBounds config tables
  roundTrip : f.roundTrip.smoothed ≤ longest

namespace Sustained

/-- An average of samples is none above all of them. -/
theorem smoothed_update_le {r : RoundTrip} (h : r.smoothed ≤ longest) {sample : Span}
    (hSample : sample ≤ longest) : (r.update sample).smoothed ≤ longest := by
  cases hAverage : r.average with
  | none =>
      rw [RoundTrip.update_of_average_eq_none hAverage]
      exact hSample
  | some average =>
      rw [RoundTrip.smoothed, hAverage, Option.getD_some] at h
      rw [RoundTrip.update_of_average_eq_some hAverage]
      exact RoundTrip.average_le h hSample

/-- A new flow has only seen the typical round trip. -/
theorem start {estimates : RoundTrip → Prop} (sound : config.Sound tables estimates)
    (typical : typicalRoundTrip ≤ longest) (id packetSize : Nat) :
    (Flow.withController id packetSize (.start config tables)).Sustained config tables longest where
  window := .of_start sound
  roundTrip := by
    have hSmoothed : (RoundTrip.start typicalRoundTrip).smoothed = typicalRoundTrip := rfl
    exact Nat.le_trans (Nat.le_of_eq hSmoothed) typical

theorem after (k : f.Sustained config tables longest)
    (sound : config.Sound tables fun estimate => estimate.smoothed ≤ longest) (laws : KeepsUnit α)
    (event : FlowEvent) (notReset : event ≠ .reset) (hTime : ∀ p now, event = .ack p now → now ≤ longest) :
    (f.after event).2.Sustained config tables longest := by
  have hLearned (estimate : RoundTrip) (h : f.Learns event estimate) : estimate.smoothed ≤ longest := by
    obtain ⟨p, now, sentAt, hEvent, _, rfl⟩ := h
    have hNow := hTime p now hEvent
    exact smoothed_update_le k.roundTrip (Nat.le_trans (Nat.sub_le now sentAt) hNow)
  constructor
  · exact inBounds_after k.window sound laws hLearned
  · rcases (f.drives_after event).roundTrip notReset with hSame | hLearns
    · rw [hSame]
      exact k.roundTrip
    · exact hLearned _ hLearns

end Sustained

end LoadFeedback.Flow
