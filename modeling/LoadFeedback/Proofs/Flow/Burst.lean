import LoadFeedback.Proofs.Flow.Pacing

/-! What leaves when a flow may send. A packet that leaves moves the next number and nothing that bounds
it, so a burst sends every number from the next one up to that bound. A paced window sends one packet and
leaves the next to the timer. -/
namespace LoadFeedback

variable {α : Type}

@[simp] theorem Controller.phase_withState (c : Controller α) (s : WindowState α) :
    (c.withState s).phase = c.phase := by
  cases c <;> rfl

theorem Controller.sent_false (c : Controller α) : c.sent false = c := by
  cases c <;> rfl

namespace Flow

/-- The flow after some more packets that the pacing timer did not release. -/
def advanced (f : Flow α) (packets : Nat) : Flow α :=
  { f with nextSeq := f.nextSeq + packets, tally := { f.tally with sent := f.tally.sent + packets } }

theorem sendOne_unpaced (f : Flow α) (now : Instant) :
    f.sendOne now false = (.data f.id f.nextSeq f.packetSize now, f.advanced 1) := by
  simp only [sendOne, Controller.sent_false, advanced, Bool.false_eq_true, ↓reduceIte]

theorem advanced_advanced (f : Flow α) (first second : Nat) :
    (f.advanced first).advanced second = f.advanced (first + second) := by
  simp only [advanced, Nat.add_assoc]

variable [Scalar α]

@[simp] theorem allowance_advanced (f : Flow α) (packets : Nat) :
    (f.advanced packets).allowance = f.allowance := rfl

theorem maySend_advanced (f : Flow α) (packets : Nat) :
    (f.advanced packets).maySend = true ↔ f.nextSeq + packets < f.allowance := by
  rw [maySend, decide_eq_true_eq]
  rfl

/-- A burst sends the packets up to the bound, in the order of their numbers. -/
theorem burst_eq (f : Flow α) (now : Instant) :
    f.burst now =
      ((List.range' f.nextSeq (f.allowance - f.nextSeq)).map
          fun seq => .data f.id seq f.packetSize now,
        f.advanced (f.allowance - f.nextSeq)) := by
  -- A packet that leaves moves the next number, but not the bound: the rest is a burst up to the same one.
  fun_induction burst f now with
  | case1 f may sent rest ih =>
      have hMay : f.nextSeq < f.allowance := by simpa [maySend] using may
      obtain ⟨more, hMore⟩ : ∃ more, f.allowance - f.nextSeq = more + 1 :=
        Nat.exists_eq_add_one_of_ne_zero (Nat.sub_ne_zero_of_lt hMay)
      have hSent : sent = (.data f.id f.nextSeq f.packetSize now, f.advanced 1) := f.sendOne_unpaced now
      have hRest : f.allowance - (f.nextSeq + 1) = more := by omega
      have hNext : sent.2.allowance - sent.2.nextSeq = more := by
        rw [hSent]
        exact hRest
      rw [hNext] at ih
      rw [hMore, List.range'_succ, List.map_cons, ← Nat.add_comm 1 more, ← advanced_advanced]
      show (sent.1 :: rest.1, rest.2) = _
      rw [show rest = _ from ih, hSent]
      rfl
  | case2 f mayNot =>
      have hNone : f.allowance - f.nextSeq = 0 := by
        have hBound : ¬f.nextSeq < f.allowance := by simpa [maySend] using mayNot
        omega
      rw [hNone]
      rfl

/-- A paced window sends one packet, and arms the pacing timer if another may leave. -/
theorem sendMany_paced {f : Flow α} {interval : Span} (now : Instant) (may : f.maySend = true)
    (paced : f.controller.pacingInterval? = some interval) :
    f.sendMany now = ([.data f.id f.nextSeq f.packetSize now],
      if (f.advanced 1).maySend then
        { f.advanced 1 with controller := ((f.advanced 1).controller.pace now).2 }
      else f.advanced 1) := by
  rw [sendMany, if_pos may, if_pos (Option.isSome_of_eq_some paced), sendOne_unpaced]

theorem sendMany_burst {f : Flow α} (now : Instant)
    (burst : f.controller.pacingInterval? = none) : f.sendMany now = f.burst now := by
  rw [sendMany, burst]
  split
  · rfl
  · next mayNot => rw [Flow.burst, dif_neg mayNot]

/-- The pacing timer is armed from the window and the round trip that were there before the packet left,
and no other timer is touched. -/
theorem pace_advanced {f : Flow α} {interval : Span} (now : Instant) (packets : Nat)
    (paced : f.controller.pacingInterval? = some interval) :
    let g := { f.advanced packets with controller := ((f.advanced packets).controller.pace now).2 }
    g.deadline? .pacing = some (now + interval) ∧ g.acked = f.acked ∧
      g.controller.window = f.controller.window ∧ g.controller.phase = f.controller.phase ∧
      ∀ timer, timer ≠ .pacing → g.deadline? timer = f.deadline? timer := by
  obtain ⟨timers, hPace, hOther⟩ := f.controller.state.pace_cases now
  have hNext : (f.controller.pace now).2 = f.controller.withState { f.controller.state with timers := timers } := by
    rw [Controller.pace, Prod.map_snd, hPace]
  have hArmed := WindowState.deadline?_pace paced now
  rw [hPace] at hArmed
  intro g
  have hController : g.controller = f.controller.withState { f.controller.state with timers := timers } :=
    hNext
  refine ⟨?_, rfl, ?_, ?_, fun timer hTimer => ?_⟩
  · rw [deadline?, hController, Controller.deadline?, Controller.state_withState]
    exact hArmed
  · rw [hController, Controller.window, Controller.state_withState]
    rfl
  · rw [hController, Controller.phase_withState]
  · rw [deadline?, hController, Controller.deadline?, Controller.state_withState]
    exact hOther timer hTimer

/-- A paced window sends one packet if one may leave. If another one may, the pacing timer is armed. -/
theorem sendMany_paces {f : Flow α} {interval : Span} (now : Instant)
    (paced : f.controller.pacingInterval? = some interval) :
    let g := (f.sendMany now).2
    (f.sendMany now).1 = (if f.maySend then [.data f.id f.nextSeq f.packetSize now] else []) ∧
      (g.maySend = true → g.deadline? .pacing = some (now + interval)) ∧ g.acked = f.acked ∧
      g.controller.window = f.controller.window ∧ g.controller.phase = f.controller.phase ∧
      ∀ timer, timer ≠ .pacing → g.deadline? timer = f.deadline? timer := by
  intro g
  cases hMay : f.maySend with
  | false =>
      have hNone : f.sendMany now = ([], f) := by rw [sendMany, hMay, if_neg Bool.false_ne_true]
      have hFlow : g = f := congrArg Prod.snd hNone
      rw [hFlow]
      refine ⟨congrArg Prod.fst hNone, fun hMore => ?_, rfl, rfl, rfl, fun _ _ => rfl⟩
      rw [hMay] at hMore
      cases hMore
  | true =>
      have hOne := sendMany_paced now hMay paced
      have hFlow : g = _ := congrArg Prod.snd hOne
      refine ⟨congrArg Prod.fst hOne, ?_⟩
      cases hNext : (f.advanced 1).maySend with
      | true =>
          obtain ⟨hArmed, hKept⟩ := pace_advanced now 1 paced
          rw [hFlow, if_pos hNext]
          exact ⟨fun _ => hArmed, hKept⟩
      | false =>
          rw [hFlow, if_neg (Bool.eq_false_iff.mp hNext)]
          refine ⟨fun hMore => ?_, rfl, rfl, rfl, fun _ _ => rfl⟩
          rw [hNext] at hMore
          cases hMore

/-- Whatever has happened to the flow: a window that is not paced is sent as a burst, and this ends after
as many packets as lie between the next number and the bound, with nothing that may still leave. A paced
window sends one packet, if one may leave, and has the pacing timer armed if another one may. Neither
moves anything but the numbers, the count of packets and that timer. -/
theorem sendMany_fills_window (f : Flow α) (now : Instant) :
    let bound := min (min maxSeq (f.acked + Scalar.floor f.controller.window)) f.limit
    let packets := (f.sendMany now).1
    let g := (f.sendMany now).2
    (f.controller.pacingInterval? = none →
      packets = ((List.range' f.nextSeq (bound - f.nextSeq)).map
        fun seq => .data f.id seq f.packetSize now) ∧
      (∀ sent < bound - f.nextSeq, (f.advanced sent).maySend = true) ∧
      g.maySend = false ∧ g = f.advanced (bound - f.nextSeq)) ∧
    (∀ interval, f.controller.pacingInterval? = some interval →
      timerGranule ≤ interval ∧
      packets = (if f.maySend then [.data f.id f.nextSeq f.packetSize now] else []) ∧
      (g.maySend = true → g.deadline? .pacing = some (now + interval))) ∧
    g.acked = f.acked ∧ g.controller.window = f.controller.window ∧
    g.controller.phase = f.controller.phase ∧
    ∀ timer, timer ≠ .pacing → g.deadline? timer = f.deadline? timer := by
  intro bound packets g
  have hBound : bound = f.allowance := rfl
  cases hInterval : f.controller.pacingInterval? with
  | none =>
      have hBurst := (sendMany_burst now hInterval).trans (f.burst_eq now)
      have hPackets : packets = _ := congrArg Prod.fst hBurst
      have hFlow : g = f.advanced (bound - f.nextSeq) := congrArg Prod.snd hBurst
      refine ⟨fun _ => ⟨hPackets, fun sent hSent => ?_, ?_, hFlow⟩, nofun, ?_⟩
      · rw [maySend_advanced]
        omega
      · rw [hFlow, Bool.eq_false_iff, Ne, maySend_advanced]
        omega
      · rw [hFlow]
        exact ⟨rfl, rfl, rfl, fun _ _ => rfl⟩
  | some interval =>
      obtain ⟨hPackets, hArmed, hKept⟩ := sendMany_paces now hInterval
      refine ⟨nofun, ?_, hKept⟩
      rintro _ ⟨⟩
      exact ⟨Pacer.granule_le_interval hInterval, hPackets, hArmed⟩

end Flow
end LoadFeedback
