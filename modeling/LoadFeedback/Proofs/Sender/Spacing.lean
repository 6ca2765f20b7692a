import LoadFeedback.Proofs.Sender.Tally

/-! How densely a coded window is decreased. Where time does not go back and no hold-down timer is
delivered early, each of the two parts of the hold-down keeps the next decrease away for its whole
span. The second span depends on the round trip known when the first one ends. -/
namespace LoadFeedback

/-- The clock after an event: events without an instant take no time. -/
def WindowEvent.clockAfter (clock : Instant) : WindowEvent → Instant
  | .ack _ now | .timer _ now | .timeout now | .pace now => now
  | .measured _ | .sent _ | .reset | .close => clock

namespace Coded

variable {α : Type}

/-- An event that does not lie before the clock, neither resets nor closes the window, and does not
deliver a hold-down timer before its deadline. -/
def Timely (clock : Instant) (c : Coded α) : WindowEvent → Prop
  | .ack _ now | .timeout now | .pace now => clock ≤ now
  | .timer timer now => clock ≤ now ∧
      (timer ≠ .pacing → c.timers.isPending timer = true → c.timers.isExpired timer now = true)
  | .measured _ | .sent _ => True
  | .reset | .close => False

instance (clock : Instant) (c : Coded α) (event : WindowEvent) : Decidable (Timely clock c event) :=
  match event with
  | .ack _ now | .timeout now | .pace now => inferInstanceAs (Decidable (clock ≤ now))
  | .timer timer now => inferInstanceAs (Decidable (clock ≤ now ∧
      (timer ≠ .pacing → c.timers.isPending timer = true → c.timers.isExpired timer now = true)))
  | .measured _ | .sent _ => inferInstanceAs (Decidable True)
  | .reset | .close => inferInstanceAs (Decidable False)

theorem Timely.clock_le {clock : Instant} {c : Coded α} {event : WindowEvent}
    (h : Timely clock c event) : clock ≤ event.clockAfter clock := by
  cases event with
  | ack p now => exact h
  | timer timer now => exact h.1
  | timeout now => exact h
  | pace now => exact h
  | measured | sent => exact Nat.le_refl clock
  | reset | close => exact absurd h id

section

variable [Scalar α]

/-- Everything that the delivery of timers can do to the hold-down, if none comes too early: nothing,
or end the part that was due. The end of the freeze arms the timer of the second part. -/
inductive Ends (c d : Coded α) (now : Instant) : Prop where
  | stay (hPhase : d.phase = c.phase)
      (hFirst : d.timers.deadline? .holdDownFirst = c.timers.deadline? .holdDownFirst)
      (hSecond : d.timers.deadline? .holdDownSecond = c.timers.deadline? .holdDownSecond)
  | thaw (hPhase : c.phase = .first) (hDue : c.timers.isExpired .holdDownFirst now = true)
      (hNext : d.phase = .second)
      (hArmed : d.timers.deadline? .holdDownSecond = some (now + c.cautionSpan))
  | lapse (hPhase : c.phase = .second) (hDue : c.timers.isExpired .holdDownSecond now = true)
      (hNext : d.phase = .none)

theorem ends_of_delivers {c : Coded α} (h : c.Aligned false) {timer : Timer} {now : Instant}
    {result : Attempt (Coded α) Bool}
    (hDue : timer ≠ .pacing → c.timers.isPending timer = true → c.timers.isExpired timer now = true)
    (step : Delivers c now timer result) : Ends c result.2 now := by
  cases step with
  | thaw hPhase =>
      exact .thaw hPhase (hDue (by decide) (h.armed_of_first rfl hPhase)) rfl (by simp)
  | lapse hPhase => exact .lapse hPhase (hDue (by decide) (h.armed_of_second rfl hPhase)) rfl
  | pacing => exact .stay rfl (by simp) (by simp)
  | refused notFirst notSecond notPacing =>
      rw [Timetable.stop_eq_self (h.idle_of_refused notFirst notSecond notPacing)]
      exact .stay rfl rfl rfl

/-- The delivery of a due timer ends one part of the hold-down, and what is delivered after it at the
same instant ends no other: the timer that the end of the freeze arms lies ahead. -/
theorem ends_of_delivers_then {c d : Coded α} (h : c.Aligned false) {timer : Timer} {now : Instant}
    {result : Attempt (Coded α) Bool} (hDue : c.timers.isExpired timer now = true)
    (step : Delivers c now timer result) (rest : Ends result.2 d now) : Ends c d now := by
  cases step with
  | thaw hPhase =>
      cases rest with
      | stay hSame _ hSecond => exact .thaw hPhase hDue hSame (hSecond.trans (by simp))
      | thaw hFirst => cases hFirst
      | lapse _ hAgain =>
          have hSpan : 0 < c.cautionSpan := Span.roundTo_up_pos α _ _
          rw [Timetable.isExpired_setAfter _ _ _ _ hSpan] at hAgain
          exact absurd rfl hAgain.1
  | lapse hPhase =>
      cases rest with
      | stay hSame => exact .lapse hPhase hDue hSame
      | thaw hFirst => cases hFirst
      | lapse hSecond => cases hSecond
  | pacing =>
      cases rest with
      | stay hSame hFirst hSecond =>
          exact .stay hSame (hFirst.trans (by simp)) (hSecond.trans (by simp))
      | thaw hPhase hAgain hNext hArmed =>
          exact .thaw hPhase ((Timetable.isExpired_stop _ _ _ _).mp hAgain).2 hNext hArmed
      | lapse hPhase hAgain hNext =>
          exact .lapse hPhase ((Timetable.isExpired_stop _ _ _ _).mp hAgain).2 hNext
  | refused notFirst notSecond notPacing =>
      have hArmed := Timetable.isPending_of_isExpired hDue
      rw [h.idle_of_refused notFirst notSecond notPacing] at hArmed
      cases hArmed

theorem ends_deliver {c : Coded α} (h : c.Aligned false) (now : Instant) (timers : List Timer)
    (release : Bool) : Ends c (c.deliver now timers release).2 now := by
  induction timers generalizing c release with
  | nil => exact .stay rfl rfl rfl
  | cons timer rest ih =>
      unfold deliver
      split
      · next hDue =>
          have hStep := delivers_onTimer c timer now
          have hNext := h.onTimer timer now
          split
          · next more next hResult =>
              rw [hResult] at hStep hNext
              exact ends_of_delivers_then h hDue hStep (ih hNext (release || more))
          · next fault next hResult =>
              rw [hResult] at hStep
              exact ends_of_delivers h (fun _ _ => hDue) hStep
      · exact ih h release

end

variable [PowerScalar α]

/-- A run in which every event is timely. -/
def Orderly (clock : Instant) (c : Coded α) : List WindowEvent → Prop
  | [] => True
  | event :: rest => Timely clock c event ∧ Orderly (event.clockAfter clock) (c.after event) rest

instance (clock : Instant) (c : Coded α) (events : List WindowEvent) :
    Decidable (Orderly clock c events) :=
  orderlyDecidable clock c events
where
  orderlyDecidable (clock : Instant) (c : Coded α) :
      (events : List WindowEvent) → Decidable (Orderly clock c events)
    | [] => inferInstanceAs (Decidable True)
    | event :: rest =>
        have := orderlyDecidable (event.clockAfter clock) (c.after event) rest
        inferInstanceAs (Decidable (Timely clock c event ∧
          Orderly (event.clockAfter clock) (c.after event) rest))

theorem orderly_append {clock : Instant} {c : Coded α} {first second : List WindowEvent} :
    Orderly clock c (first ++ second) ↔
      Orderly clock c first ∧
        Orderly (first.foldl WindowEvent.clockAfter clock) (c.run first) second := by
  induction first generalizing clock c with
  | nil => simp [Orderly, run]
  | cons event rest ih =>
      simp only [List.cons_append, Orderly, ih, and_assoc]
      rfl

/-- What every timely event keeps, every orderly run keeps. -/
theorem Orderly.keeps {P : Instant → Coded α → Prop}
    (hStep : ∀ clock c event, Timely clock c event → P clock c →
      P (event.clockAfter clock) (c.after event))
    {clock : Instant} {c : Coded α} {events : List WindowEvent} (run : Orderly clock c events)
    (h : P clock c) : P (events.foldl WindowEvent.clockAfter clock) (c.run events) := by
  induction events generalizing clock c with
  | nil => exact h
  | cons event rest ih => exact ih run.2 (hStep clock c event run.1 h)

/-- The acknowledgment is taken, and the action that it leads to is a decrease. -/
def Decreases (c : Coded α) (p : Packet) (now : Instant) : Prop :=
  ∃ code, (c.onAck p now).1 = .ok code ∧ (c.onAck p now).2.action = .decrease

/-- The event ends the freeze. -/
def Thaws (c : Coded α) (event : WindowEvent) : Prop :=
  c.phase = .first ∧ (c.after event).phase = .second

/-- A decrease happens outside of a hold-down, enters the freeze and arms it for its whole span. -/
theorem Decreases.enters {c : Coded α} {p : Packet} {now : Instant} (h : c.Decreases p now) :
    c.phase = .none ∧ (c.after (.ack p now)).phase = .first ∧
      (c.after (.ack p now)).timers.deadline? .holdDownFirst = some (now + c.freezeSpan) := by
  obtain ⟨code, hTaken, hAction⟩ := h
  rcases c.onAck_cases p now with ⟨fault, _, hResult⟩ | ⟨code, _, hResult⟩
  · rw [hResult] at hTaken
    cases hTaken
  · rw [hResult, action_respond] at hAction
    refine ⟨(choose_eq_decrease.mp hAction).2, ?_, ?_⟩
    · simp only [after, hResult, phase_respond, if_pos hAction]
    · simp [after, hResult, timers_respond, hAction]

/-- A timely event delivers timers, or begins a hold-down. -/
theorem Timely.moves {clock : Instant} {c : Coded α} {event : WindowEvent} (h : c.Aligned false)
    (timely : Timely clock c event) :
    Ends c (c.after event) (event.clockAfter clock) ∨
      c.phase = .none ∧ (c.after event).phase = .first ∧
        (c.after event).timers.deadline? .holdDownFirst =
          some (event.clockAfter clock + c.freezeSpan) := by
  cases event with
  | ack p now =>
      rcases c.onAck_cases p now with ⟨fault, _, hResult⟩ | ⟨code, hCheck, hResult⟩
      · exact Or.inl (by simp only [after, hResult]; exact .stay rfl rfl rfl)
      · by_cases hAction : c.choose code = .decrease
        · exact Or.inr (Decreases.enters ⟨code, by rw [hResult], by rw [hResult]; exact hAction⟩)
        · refine Or.inl (.stay ?_ ?_ ?_) <;>
            simp [after, hResult, phase_respond, timers_respond, hAction]
  | measured estimate => exact Or.inl (.stay rfl rfl rfl)
  | sent paced => exact Or.inl (by cases paced <;> exact .stay rfl rfl rfl)
  | timer timer now => exact Or.inl (ends_of_delivers h timely.2 (delivers_onTimer c timer now))
  | timeout now => exact Or.inl (ends_deliver h now _ false)
  | pace now =>
      obtain ⟨timers, hPace, hOther⟩ := c.toWindowState.pace_cases now
      refine Or.inl (.stay rfl ?_ ?_)
      · simp only [after, hPace, hOther .holdDownFirst (by decide)]
      · simp only [after, hPace, hOther .holdDownSecond (by decide)]
  | reset | close => exact absurd timely id

theorem Timely.aligned {clock : Instant} {c : Coded α} {event : WindowEvent} (h : c.Aligned false)
    (timely : Timely clock c event) : (c.after event).Aligned false := by
  have hNext := h.after event
  cases event with
  | reset | close => exact absurd timely id
  | _ => exact hNext

/-- A round trip that the laws use is never below what timers resolve. -/
theorem granule_le_roundTrip_after {c : Coded α} (h : timerGranule ≤ c.scaling.roundTrip)
    (event : WindowEvent) : timerGranule ≤ (c.after event).scaling.roundTrip := by
  cases event with
  | ack p now =>
      refine after_ack_keeps (P := fun d => timerGranule ≤ d.scaling.roundTrip) p now h fun code => ?_
      rwa [scaling_respond]
  | measured estimate => exact Nat.le_max_right _ _
  | sent paced => cases paced <;> exact h
  | timer timer now =>
      simp only [after, (c.terms_onTimer timer now).2]
      exact h
  | timeout now =>
      simp only [after, (c.terms_onTimeout now).2]
      exact h
  | pace now =>
      obtain ⟨timers, hPace, _⟩ := c.toWindowState.pace_cases now
      simpa only [after, hPace] using h
  | reset => exact (by decide : timerGranule ≤ typicalRoundTrip)
  | close => exact h

theorem IsFresh.granule_le_roundTrip_run {c : Coded α} (h : c.IsFresh)
    (events : List WindowEvent) : timerGranule ≤ (c.run events).scaling.roundTrip := by
  have hTypical : timerGranule ≤ c.scaling.roundTrip := by
    rcases h with ⟨config, tables, rfl⟩ | ⟨d, rfl⟩ <;>
      exact (by decide : timerGranule ≤ typicalRoundTrip)
  exact run_keeps (P := fun d => timerGranule ≤ d.scaling.roundTrip)
    (fun _ event hStep => granule_le_roundTrip_after hStep event) events c hTypical

/-- While the window is frozen, it stays so until the given instant at least. -/
def FrozenUntil (bound : Instant) (c : Coded α) : Prop :=
  c.phase = .first →
    ∃ deadline, c.timers.deadline? .holdDownFirst = some deadline ∧ bound ≤ deadline

/-- The given instant has passed, or the window grows by terms only until then at least. -/
def CautiousUntil (bound clock : Instant) (c : Coded α) : Prop :=
  bound ≤ clock ∨ c.phase = .second ∧
    ∃ deadline, c.timers.deadline? .holdDownSecond = some deadline ∧ bound ≤ deadline

/-- A freeze that begins later also ends later. -/
theorem FrozenUntil.after {bound clock : Instant} {c : Coded α} {event : WindowEvent}
    (h : c.FrozenUntil bound) (hBound : bound ≤ clock + c.freezeSpan) (hAligned : c.Aligned false)
    (timely : Timely clock c event) : (c.after event).FrozenUntil bound := by
  intro hFrozen
  rcases timely.moves hAligned with hEnds | ⟨_, _, hArmed⟩
  · cases hEnds with
    | stay hPhase hFirst _ =>
        rw [hFirst]
        exact h (hPhase.symm.trans hFrozen)
    | thaw _ _ hNext =>
        rw [hNext] at hFrozen
        cases hFrozen
    | lapse _ _ hNext =>
        rw [hNext] at hFrozen
        cases hFrozen
  · exact ⟨_, hArmed, Nat.le_trans hBound (Nat.add_le_add_right timely.clock_le _)⟩

/-- Once the instant has passed it stays in the past, and before that only the due timer ends the
cautious part. -/
theorem CautiousUntil.after {bound clock : Instant} {c : Coded α} {event : WindowEvent}
    (h : c.CautiousUntil bound clock) (hAligned : c.Aligned false) (timely : Timely clock c event) :
    (c.after event).CautiousUntil bound (event.clockAfter clock) := by
  rcases h with hPassed | ⟨hSecond, deadline, hArmed, hBound⟩
  · exact Or.inl (Nat.le_trans hPassed timely.clock_le)
  · rcases timely.moves hAligned with hEnds | ⟨hNone, _, _⟩
    · cases hEnds with
      | stay hPhase _ hSame =>
          exact Or.inr ⟨hPhase.trans hSecond, deadline, hSame.trans hArmed, hBound⟩
      | thaw hFirst =>
          rw [hFirst] at hSecond
          cases hSecond
      | lapse _ hDue _ =>
          obtain ⟨due, hDeadline, hLe⟩ := Timetable.isExpired_iff.mp hDue
          rw [hArmed] at hDeadline
          cases hDeadline
          exact Or.inl (Nat.le_trans hBound hLe)
    · rw [hNone] at hSecond
      cases hSecond

/-- The end of a freeze does not come before its timer, and leaves the window cautious for a whole
round trip as it is known then. -/
theorem Thaws.bounds {bound clock : Instant} {c : Coded α} {event : WindowEvent}
    (h : c.Thaws event) (hFrozen : c.FrozenUntil bound) (hAligned : c.Aligned false)
    (timely : Timely clock c event) :
    bound ≤ event.clockAfter clock ∧
      (c.after event).CautiousUntil (event.clockAfter clock + c.cautionSpan)
        (event.clockAfter clock) := by
  obtain ⟨hFirst, hNext⟩ := h
  rcases timely.moves hAligned with hEnds | ⟨hNone, _, _⟩
  · cases hEnds with
    | stay hPhase =>
        rw [hPhase, hFirst] at hNext
        cases hNext
    | thaw _ hDue hSecond hArmed =>
        obtain ⟨deadline, hDeadline, hBound⟩ := hFrozen hFirst
        obtain ⟨due, hSame, hLe⟩ := Timetable.isExpired_iff.mp hDue
        rw [hDeadline] at hSame
        cases hSame
        exact ⟨Nat.le_trans hBound hLe, Or.inr ⟨hSecond, _, hArmed, Nat.le_refl _⟩⟩
    | lapse hSecond =>
        rw [hFirst] at hSecond
        cases hSecond
  · rw [hNone] at hFirst
    cases hFirst

/-- A window that is frozen before a run and not after it has met the end of the freeze. -/
theorem exists_thaws {clock : Instant} {c : Coded α} {events : List WindowEvent}
    (run : Orderly clock c events) (hAligned : c.Aligned false) (hFirst : c.phase = .first)
    (hLast : (c.run events).phase ≠ .first) :
    ∃ front event back, events = front ++ event :: back ∧ (c.run front).Thaws event := by
  induction events generalizing clock c with
  | nil => exact absurd hFirst hLast
  | cons event rest ih =>
      by_cases hThaws : c.Thaws event
      · exact ⟨[], event, rest, rfl, hThaws⟩
      · have hStill : (c.after event).phase = .first := by
          rcases run.1.moves hAligned with hEnds | ⟨_, hNext, _⟩
          · cases hEnds with
            | stay hPhase => exact hPhase.trans hFirst
            | thaw _ _ hNext => exact absurd ⟨hFirst, hNext⟩ hThaws
            | lapse hSecond =>
                rw [hFirst] at hSecond
                cases hSecond
          · exact hNext
        obtain ⟨front, e, back, hEvents, hEnd⟩ :=
          ih run.2 (run.1.aligned hAligned) hStill hLast
        exact ⟨event :: front, e, back, by rw [hEvents, List.cons_append], hEnd⟩

/-- A decrease keeps the next one away for the span of the freeze and for the round trip that is
known when the freeze ends. Both bounds are carried through the events between them. -/
theorem Decreases.spaced {c : Coded α} (hAligned : c.Aligned false) {p q : Packet}
    {first second : Instant} {front back : List WindowEvent} {event : WindowEvent}
    (hFirst : c.Decreases p first)
    (orderly : Orderly first (c.after (.ack p first)) (front ++ event :: (back ++ [.ack q second])))
    (hThaws : ((c.after (.ack p first)).run front).Thaws event)
    (hSecond : ((c.after (.ack p first)).run (front ++ event :: back)).Decreases q second) :
    first + c.freezeSpan + ((c.after (.ack p first)).run front).cautionSpan ≤ second := by
  obtain ⟨hFront, hTimely, hRest⟩ := orderly_append.mp orderly
  obtain ⟨hBack, hLast, _⟩ := orderly_append.mp hRest
  obtain ⟨_, _, hArmed⟩ := hFirst.enters
  -- Up to the end of the freeze its timer is not armed for less than its span after the decrease.
  have hFreeze := hFront.keeps
    (P := fun clock d => d.Aligned false ∧ first ≤ clock ∧ d.freezeSpan = c.freezeSpan ∧
      d.FrozenUntil (first + c.freezeSpan))
    (fun clock d e timely ⟨hA, hClock, hSpan, hFrozen⟩ =>
      ⟨timely.aligned hA, Nat.le_trans hClock timely.clock_le,
        by rw [← hSpan, freezeSpan, config_after]; rfl,
        hFrozen.after (by rw [hSpan]; exact Nat.add_le_add_right hClock _) hA timely⟩)
    ⟨hAligned.after (.ack p first), Nat.le_refl first,
      by rw [freezeSpan, config_after]; rfl, fun _ => ⟨_, hArmed, Nat.le_refl _⟩⟩
  obtain ⟨hFrontAligned, _, _, hFrozen⟩ := hFreeze
  obtain ⟨hThawed, hCautious⟩ := hThaws.bounds hFrozen hFrontAligned hTimely
  -- From there on the second decrease waits for the timer armed at the end of the freeze.
  have hCaution := hBack.keeps
    (P := fun clock d => d.Aligned false ∧ d.CautiousUntil _ clock)
    (fun clock d e timely ⟨hA, hC⟩ => ⟨timely.aligned hA, hC.after hA timely⟩)
    ⟨hTimely.aligned hFrontAligned, hCautious⟩
  rw [run_append, run_cons] at hSecond
  rcases hCaution.2 with hPassed | ⟨hPhase, _⟩
  · exact Nat.le_trans (Nat.add_le_add_right hThawed _) (Nat.le_trans hPassed hLast.clock_le)
  · rw [hSecond.enters.1] at hPhase
    cases hPhase

/-- What counts the decreases of a fresh window, and what keeps them apart. In every run,
acknowledgments are counted by their actions, and each decrease as one cut and two hold-down timers.
In an orderly run, a freeze ends between any two decreases. Wherever one does, the second decrease
comes after the first one by the span of the freeze and a round trip as it was known there, both
rounded up to what timers resolve. -/
theorem decreases_counted_and_spaced {c : Coded α} (fresh : c.IsFresh) :
    (∀ events, (c.run events).Balanced) ∧
    ∀ before p first between q second,
      Orderly 0 c (before ++ .ack p first :: (between ++ [.ack q second])) →
      (c.run before).Decreases p first →
      (c.run (before ++ .ack p first :: between)).Decreases q second →
      (∃ front event back, between = front ++ event :: back ∧
        (c.run (before ++ .ack p first :: front)).Thaws event) ∧
      ∀ front event back, between = front ++ event :: back →
        (c.run (before ++ .ack p first :: front)).Thaws event →
        timerGranule ≤ (c.run (before ++ .ack p first :: front)).scaling.roundTrip ∧
        first + Span.roundTo α timerGranule .up c.config.linkInterval +
          Span.roundTo α timerGranule .up
            (c.run (before ++ .ack p first :: front)).scaling.roundTrip ≤ second := by
  refine ⟨fun events => fresh.balanced.run events, ?_⟩
  intro before p first between q second orderly hFirst hSecond
  obtain ⟨hBefore, hTimely, hAfter⟩ := orderly_append.mp orderly
  obtain ⟨hBetween, hLast, _⟩ := orderly_append.mp hAfter
  rw [run_append, run_cons] at hSecond
  have hAligned : (c.run before).Aligned false :=
    hBefore.keeps (P := fun _ d => d.Aligned false) (fun _ _ _ h hA => h.aligned hA) fresh.aligned
  have hFrozenFrom := hTimely.aligned hAligned
  obtain ⟨_, hFrozen, hArmed⟩ := hFirst.enters
  refine ⟨?_, ?_⟩
  · obtain ⟨front, event, back, hEvents, hThaws⟩ :=
      exists_thaws hBetween hFrozenFrom hFrozen (by rw [hSecond.enters.1]; decide)
    exact ⟨front, event, back, hEvents, by rwa [run_append, run_cons]⟩
  · rintro front event back rfl hThaws
    refine ⟨fresh.granule_le_roundTrip_run _, ?_⟩
    rw [run_append, run_cons] at hThaws ⊢
    rw [List.append_assoc, List.cons_append] at hAfter
    have hSpaced := hFirst.spaced hAligned hAfter hThaws hSecond
    rwa [freezeSpan, config_run] at hSpaced

/-- At the typical round trip and the default interval of the links, a window that stays overloaded
is decreased again after exactly 300 milliseconds. -/
theorem decreases_spaced_by_defaults :
    let c : Coded Float := start .standard .standard
    let overload := (Packet.ack 1 1 40 0 0).withFeedback (.ofCode .over)
    let between := [.timeout (Span.millis 200), .timeout (Span.millis 300)]
    Orderly 0 c (.ack overload 0 :: (between ++ [.ack overload (Span.millis 300)])) ∧
      c.Decreases overload 0 ∧
      (c.run (.ack overload 0 :: between)).Decreases overload (Span.millis 300) ∧
      (c.run [.ack overload 0]).Thaws (.timeout (Span.millis 200)) ∧
      Span.roundTo Float timerGranule .up c.config.linkInterval +
        Span.roundTo Float timerGranule .up typicalRoundTrip = Span.millis 300 ∧
      0 + Span.roundTo Float timerGranule .up c.config.linkInterval +
        Span.roundTo Float timerGranule .up (c.run [.ack overload 0]).scaling.roundTrip ≤
          Span.millis 300 := by
  intro c overload between
  have hOrderly : Orderly 0 c
      ([] ++ .ack overload 0 :: (between ++ [.ack overload (Span.millis 300)])) := by decide +kernel
  have hFirst : (c.run []).Decreases overload 0 := ⟨.over, rfl, by decide +kernel⟩
  have hSecond : (c.run ([] ++ .ack overload 0 :: between)).Decreases overload (Span.millis 300) :=
    ⟨.over, rfl, by decide +kernel⟩
  have hThaws : (c.run ([] ++ .ack overload 0 :: [])).Thaws (.timeout (Span.millis 200)) :=
    ⟨by decide +kernel, by decide +kernel⟩
  have hSpaced := (decreases_counted_and_spaced (Or.inl ⟨.standard, .standard, rfl⟩)).2
    [] overload 0 between overload (Span.millis 300) hOrderly hFirst hSecond
  exact ⟨hOrderly, hFirst, hSecond, hThaws, by decide +kernel,
    (hSpaced.2 [] _ [.timeout (Span.millis 300)] rfl hThaws).2⟩

end Coded
end LoadFeedback
