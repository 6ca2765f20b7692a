import LoadFeedback.Proofs.Flow.Pacing
import LoadFeedback.Proofs.Flow.Window

/-! Due timers can be delivered one by one, as a queue of timers hands them out, or all at once. Both
come to the same: the delivery of one due timer neither makes another one due nor disarms it, at most one
of them belongs to the hold-down, and the one for pacing has no part in the hold-down. -/
namespace LoadFeedback

section

variable {α : Type} [Scalar α] {now : Instant}

namespace Controller

variable {c : Controller α} {timer : Timer} {timers order : List Timer}

omit [Scalar α] in
/-- Two timers that the window expects are one and the same, or one of them is for pacing: a phase has
at most one timer of the hold-down. -/
theorem Expects.eq_or_pacing {first second : Timer} (h : c.Expects first) (k : c.Expects second) :
    first = second ∨ first = .pacing ∨ second = .pacing := by
  cases first with
  | queueSampling | loadMeasurement => exact h.elim
  | pacing => exact Or.inr (Or.inl rfl)
  | holdDownFirst =>
      cases second with
      | queueSampling | loadMeasurement => exact k.elim
      | pacing => exact Or.inr (Or.inr rfl)
      | holdDownFirst => exact Or.inl rfl
      | holdDownSecond => cases h.symm.trans k
  | holdDownSecond =>
      cases second with
      | queueSampling | loadMeasurement => exact k.elim
      | pacing => exact Or.inr (Or.inr rfl)
      | holdDownFirst => cases h.symm.trans k
      | holdDownSecond => exact Or.inl rfl

/-- An armed timer is one that the window expects, also if the timers were once all disarmed. -/
def Attuned : Controller α → Prop
  | coded c => ∃ closed, c.Aligned closed
  | raw r => ∀ timer, timer ≠ .pacing → r.timers.isPending timer = false

namespace Attuned

omit [Scalar α] in
theorem eq_pacing {r : Raw α} (h : (raw r).Attuned) (armed : r.timers.isPending timer = true) :
    timer = .pacing :=
  Classical.byContradiction fun hOther => by cases (h timer hOther).symm.trans armed

omit [Scalar α] in
theorem expects (h : c.Attuned) (armed : c.state.timers.isPending timer = true) : c.Expects timer := by
  cases c with
  | coded c =>
      obtain ⟨closed, hAligned⟩ := h
      cases timer with
      | queueSampling => cases hAligned.sampling_idle.symm.trans armed
      | loadMeasurement => cases hAligned.measurement_idle.symm.trans armed
      | holdDownFirst => exact hAligned.first_of_armed armed
      | holdDownSecond => exact hAligned.second_of_armed armed
      | pacing => trivial
  | raw r =>
      rw [h.eq_pacing armed]
      trivial

omit [Scalar α] in
theorem of_aligned (h : c.Aligned) : c.Attuned := by
  cases c with
  | coded c => exact ⟨false, h⟩
  | raw r => exact h

theorem onTimer (h : c.Attuned) (timer : Timer) (now : Instant) : (c.onTimer timer now).2.Attuned := by
  cases c with
  | coded c =>
      obtain ⟨closed, hAligned⟩ := h
      exact ⟨closed, hAligned.onTimer timer now⟩
  | raw r => exact ((raw r).continues_onTimer timer now).aligned h

omit [Scalar α] in
theorem sent (h : c.Attuned) (paced : Bool) : (c.sent paced).Attuned := by
  cases c with
  | coded c =>
      obtain ⟨closed, hAligned⟩ := h
      exact ⟨closed, hAligned.congr rfl fun _ _ => by cases paced <;> rfl⟩
  | raw r => exact ((raw r).continues_sent paced 0).aligned h

/-- No call makes the window expect other timers than those it arms, not even one that disarms
them all. -/
theorem after {α : Type} [PowerScalar α] {c : Controller α} (h : c.Attuned) (event : WindowEvent) :
    (c.after event).Attuned := by
  cases c with
  | coded c =>
      obtain ⟨closed, hAligned⟩ := h
      rw [after_coded]
      exact ⟨event.closes closed, hAligned.after event⟩
  | raw r =>
      cases event with
      | ack p now => exact ((raw r).continues_onAck p now).aligned h
      | measured estimate => exact ((raw r).continues_measured estimate 0).aligned h
      | sent paced => exact Attuned.sent h paced
      | timer timer now => exact Attuned.onTimer h timer now
      | timeout now => exact Aligned.onTimeout (c := raw r) h now
      | pace now => exact ((raw r).continues_pace now).aligned h
      | reset => exact (raw r).aligned_reset
      | close => exact fun timer _ => Timetable.isPending_empty timer

theorem run {α : Type} [PowerScalar α] {c : Controller α} (h : c.Attuned) (events : List WindowEvent) :
    (c.run events).Attuned := by
  induction events generalizing c with
  | nil => exact h
  | cons event rest ih => exact ih (h.after event)

/-- A due timer is accepted, and lets a packet leave exactly if it is the one for pacing. Of the other
timers the same ones are due afterwards as before. -/
theorem onTimer_of_due (h : c.Attuned) (due : c.state.timers.isExpired timer now = true) :
    (c.onTimer timer now).1 = .ok (decide (timer = .pacing)) ∧
      ∀ other, (c.onTimer timer now).2.state.timers.isExpired other now = true ↔
        other ≠ timer ∧ c.state.timers.isExpired other now = true := by
  cases c with
  | coded c =>
      obtain ⟨closed, hAligned⟩ := h
      exact hAligned.onTimer_of_due due
  | raw r =>
      obtain rfl := h.eq_pacing (Timetable.isPending_of_isExpired due)
      exact ⟨rfl, fun other => Timetable.isExpired_stop _ _ _ _⟩

end Attuned

/-- The window after some timers were delivered, the first one first. -/
def expire (c : Controller α) (now : Instant) (timers : List Timer) : Controller α :=
  timers.foldl (fun c timer => (c.onTimer timer now).2) c

theorem expire_cons (c : Controller α) (now : Instant) (timer : Timer) (timers : List Timer) :
    c.expire now (timer :: timers) = (c.onTimer timer now).2.expire now timers := rfl

theorem agrees_expire (c : Controller α) (now : Instant) (timers : List Timer) :
    c.state.Agrees (c.expire now timers).state := by
  induction timers generalizing c with
  | nil => exact .refl _
  | cons timer rest ih => exact (c.agrees_onTimer timer now).trans (ih (c.onTimer timer now).2)

/-- The timer for pacing can trade places with any other. -/
theorem onTimer_pacing_comm (c : Controller α) (timer : Timer) (now : Instant) :
    ((c.onTimer .pacing now).2.onTimer timer now).2 =
      ((c.onTimer timer now).2.onTimer .pacing now).2 := by
  cases c with
  | coded c =>
      obtain ⟨s, phase, gain, tables⟩ := c
      cases timer <;> cases phase <;> rfl
  | raw r => cases timer <;> rfl

/-- So can a packet that leaves. -/
theorem onTimer_sent (c : Controller α) (paced : Bool) (timer : Timer) (now : Instant) :
    (c.sent paced).onTimer timer now =
      ((c.onTimer timer now).1, (c.onTimer timer now).2.sent paced) := by
  cases c with
  | coded c =>
      obtain ⟨s, phase, gain, tables⟩ := c
      cases paced <;> cases timer <;> cases phase <;> rfl
  | raw r => cases paced <;> cases timer <;> rfl

theorem expire_sent (c : Controller α) (paced : Bool) (now : Instant) (timers : List Timer) :
    (c.sent paced).expire now timers = (c.expire now timers).sent paced := by
  induction timers generalizing c with
  | nil => rfl
  | cons timer rest ih =>
      rw [expire_cons, onTimer_sent, expire_cons]
      exact ih (c.onTimer timer now).2

/-- Due timers leave the same window in whatever order they are delivered. -/
theorem Attuned.expire_perm (h : c.Attuned) (perm : order.Perm timers)
    (due : ∀ timer ∈ order, c.state.timers.isExpired timer now = true) :
    c.expire now order = c.expire now timers := by
  refine perm.foldl_eq' (fun first hFirst second hSecond d => ?_) c
  have hExpects (timer : Timer) (hListed : timer ∈ order) : c.Expects timer :=
    h.expects (Timetable.isPending_of_isExpired (due timer hListed))
  rcases (hExpects first hFirst).eq_or_pacing (hExpects second hSecond) with rfl | rfl | rfl
  · rfl
  · exact d.onTimer_pacing_comm second now
  · exact (d.onTimer_pacing_comm first now).symm

omit [Scalar α] in
theorem decide_pacing_mem_cons (timer : Timer) (timers : List Timer) :
    decide (.pacing ∈ timer :: timers) = (decide (timer = .pacing) || decide (.pacing ∈ timers)) := by
  rw [← Bool.decide_or, decide_eq_decide, List.mem_cons, eq_comm]

/-- Where the listed timers are looked at one by one, those that were due at first are delivered: none
becomes due on the way, and none is disarmed before its turn. -/
theorem Attuned.deliver_eq {c : Coded α} (h : (coded c).Attuned) (now : Instant)
    (distinct : timers.Nodup) (released : Bool) :
    (c.deliver now timers released).map id coded =
      (.ok (released || decide (.pacing ∈ timers.filter (c.timers.isExpired · now))),
        (coded c).expire now (timers.filter (c.timers.isExpired · now))) := by
  induction timers generalizing c released with
  | nil => simp [Coded.deliver, expire]
  | cons timer rest ih =>
      obtain ⟨hOnce, hRest⟩ := List.nodup_cons.mp distinct
      cases hDue : c.timers.isExpired timer now with
      | false =>
          rw [Coded.deliver, hDue, List.filter_cons_of_neg (by simp [hDue])]
          exact ih h hRest released
      | true =>
          obtain ⟨hTaken, hOthers⟩ := h.onTimer_of_due hDue
          have hNext := h.onTimer timer now
          cases hResult : c.onTimer timer now with
          | mk outcome d =>
              have hStep : (coded c).onTimer timer now = (outcome, coded d) :=
                congrArg (Prod.map id coded) hResult
              rw [hStep] at hTaken hOthers hNext
              have hSame : rest.filter (d.timers.isExpired · now) =
                  rest.filter (c.timers.isExpired · now) := by
                refine List.filter_congr fun other hOther => Bool.eq_iff_iff.mpr ?_
                have hNe : other ≠ timer := fun hEq => hOnce (hEq ▸ hOther)
                exact (hOthers other).trans (and_iff_right hNe)
              rw [List.filter_cons_of_pos (by simp [hDue]), expire_cons, hStep]
              rw [Coded.deliver, hDue, hResult, show outcome = _ from hTaken]
              refine (ih hNext hRest (released || decide (timer = .pacing))).trans ?_
              rw [hSame, Bool.or_assoc, decide_pacing_mem_cons]

/-- The delivery of all due timers takes those of the timetable, in its order, and lets a packet leave
exactly if the timer for pacing is one of them. -/
theorem Attuned.onTimeout_eq (h : c.Attuned) (now : Instant) :
    c.onTimeout now = (.ok (decide (.pacing ∈ c.state.timers.expired now)),
      c.expire now (c.state.timers.expired now)) := by
  cases c with
  | coded c =>
      have hIdle (timer : Timer) (hNot : ¬(coded c).Expects timer) :
          c.timers.isExpired timer now = false :=
        Bool.eq_false_iff.mpr fun hDue => hNot (h.expects (Timetable.isPending_of_isExpired hDue))
      have hSampling : c.timers.isExpired .queueSampling now = false := hIdle _ id
      have hMeasurement : c.timers.isExpired .loadMeasurement now = false := hIdle _ id
      have hExpired : c.timers.expired now =
          [.holdDownFirst, .holdDownSecond, .pacing].filter (c.timers.isExpired · now) := by
        rw [Timetable.expired, Timer.all, List.filter_cons_of_neg (by simp [hSampling]),
          List.filter_cons_of_neg (by simp [hMeasurement])]
      have hDistinct : [Timer.holdDownFirst, .holdDownSecond, .pacing].Nodup := by decide
      have hDeliver := h.deliver_eq now hDistinct false
      rw [Bool.false_or, ← hExpired] at hDeliver
      exact hDeliver
  | raw r =>
      have hOther (timer : Timer) (hNe : timer ≠ .pacing) : r.timers.isExpired timer now = false :=
        Bool.eq_false_iff.mpr fun hDue => hNe (h.eq_pacing (Timetable.isPending_of_isExpired hDue))
      have hExpired : r.timers.expired now = [.pacing].filter (r.timers.isExpired · now) := by
        simp [Timetable.expired, Timer.all, List.filter_cons, hOther]
      show (r.onTimeout now).map id raw = (.ok (decide (.pacing ∈ r.timers.expired now)),
        (raw r).expire now (r.timers.expired now))
      rw [hExpired, Raw.onTimeout]
      cases hDue : r.timers.isExpired .pacing now with
      | false => simp [hDue, expire]
      | true =>
          rw [List.filter_cons_of_pos (by simp [hDue])]
          rfl

end Controller

namespace Flow

/-- Delivers timers one by one, up to the first that is refused, and gives the packets that they
release. -/
def deliverEach (f : Flow α) (now : Instant) : List Timer → Attempt (Flow α) (List Packet)
  | [] => (.ok [], f)
  | timer :: rest =>
    match f.onTimer timer now with
    | (.error fault, f) => (.error fault, f)
    | (.ok packets, f) =>
      match f.deliverEach now rest with
      | (.error fault, f) => (.error fault, f)
      | (.ok later, f) => (.ok (packets ++ later), f)

/-- Timers that are delivered behind a packet could as well have been delivered before it left. -/
theorem release_expire (f : Flow α) (released : Bool) (now : Instant) (timers : List Timer) :
    Flow.release { f with controller := f.controller.expire now timers } released now =
      ((f.release released now).1,
        { (f.release released now).2 with
          controller := (f.release released now).2.controller.expire now timers }) := by
  have hMay := f.maySend_withController (f.controller.agrees_expire now timers).window_eq
  unfold release
  rw [hMay]
  split
  · simp only [sendOne, Controller.expire_sent]
  · rfl

theorem attuned_release {f : Flow α} (h : f.controller.Attuned) (released : Bool) (now : Instant) :
    (f.release released now).2.controller.Attuned := by
  unfold release
  split
  · exact h.sent true
  · exact h

theorem isExpired_release (f : Flow α) (released : Bool) (now : Instant) (timer : Timer) :
    (f.release released now).2.controller.state.timers.isExpired timer now =
      f.controller.state.timers.isExpired timer now := by
  have hKept : (f.release released now).2.controller.state.timers.deadline? timer =
      f.controller.state.timers.deadline? timer := f.deadline?_release released now timer
  simp only [Timetable.isExpired, hKept]

/-- Due timers that are delivered one by one come to the same as all of them before a packet leaves. -/
theorem deliverEach_eq {f : Flow α} (h : f.controller.Attuned) {order : List Timer}
    (distinct : order.Nodup)
    (due : ∀ timer ∈ order, f.controller.state.timers.isExpired timer now = true) :
    f.deliverEach now order =
      f.afterTimers now (.ok (decide (.pacing ∈ order)), f.controller.expire now order) := by
  induction order generalizing f with
  | nil => simp [deliverEach, afterTimers, release, Controller.expire]
  | cons timer rest ih =>
      obtain ⟨hOnce, hRest⟩ := List.nodup_cons.mp distinct
      obtain ⟨hFirst, hLater⟩ := List.forall_mem_cons.mp due
      obtain ⟨hTaken, hOthers⟩ := h.onTimer_of_due hFirst
      have hNext := h.onTimer timer now
      rw [Controller.expire_cons, Controller.decide_pacing_mem_cons, deliverEach, onTimer,
        ← Prod.eta (f.controller.onTimer timer now), hTaken]
      generalize (f.controller.onTimer timer now).2 = c at hOthers hNext ⊢
      have hDue : ∀ other ∈ rest, c.state.timers.isExpired other now = true := fun other hOther =>
        (hOthers other).mpr ⟨fun hEq => hOnce (hEq ▸ hOther), hLater other hOther⟩
      -- What the others do to the flow that has or has not released a packet.
      have hBehind (released : Bool) :=
        ih (f := (Flow.release { f with controller := c } released now).2)
          (attuned_release (f := { f with controller := c }) hNext released now) hRest
          fun other hOther => (isExpired_release _ released now other).trans (hDue other hOther)
      have hBefore := Flow.release_expire { f with controller := c } true now rest
      simp only [afterTimers, hBehind]
      by_cases hPacing : timer = .pacing
      · subst hPacing
        rw [decide_eq_false hOnce, decide_eq_true rfl, Bool.or_false, hBefore]
        simp [release]
      · rw [decide_eq_false hPacing, Bool.false_or]
        simp [release]

end Flow

end

namespace Flow

section

variable {α : Type} [PowerScalar α]

theorem attuned_after {f : Flow α} (h : f.controller.Attuned) (event : FlowEvent) :
    (f.after event).2.controller.Attuned := by
  obtain ⟨events, hRun, _⟩ := (f.drives_after event).window
  rw [hRun]
  exact h.run events

theorem attuned_history {f : Flow α} (h : f.controller.Attuned) (events : List FlowEvent) :
    (f.history events).2.controller.Attuned :=
  history_keeps (P := fun f => f.controller.Attuned) h fun _ event _ hPast => attuned_after hPast event

/-- Whatever was called on a window under either law and on the flow around it: at every instant, the
due timers can be delivered one by one in any order. None of them is refused, and the packets and the
flow are those of a single delivery of all due timers. -/
theorem deliverEach_eq_onTimeout (config : SenderConfig α) (tables : WindowTables α)
    (id packetSize : Nat) (prior : List WindowEvent) (events : List FlowEvent) (now : Instant)
    {order : List Timer} (distinct : order.Nodup) :
    let window := (Controller.start config tables).run prior
    let f := ((withController id packetSize window).history events).2
    (∀ timer, timer ∈ order ↔ ∃ deadline, f.deadline? timer = some deadline ∧ deadline ≤ now) →
      ∃ packets g, f.deliverEach now order = (.ok packets, g) ∧ f.onTimeout now = (.ok packets, g) := by
  intro window f due
  have hNew := Controller.Attuned.of_aligned (Controller.aligned_start config tables)
  have hWindow : f.controller.Attuned := attuned_history (hNew.run prior) events
  have hDue (timer : Timer) : timer ∈ order ↔ f.controller.state.timers.isExpired timer now = true :=
    (due timer).trans Timetable.isExpired_iff.symm
  have hExpired (timer : Timer) : timer ∈ f.controller.state.timers.expired now ↔
      f.controller.state.timers.isExpired timer now = true := by
    rw [Timetable.expired, List.mem_filter, and_iff_right (by cases timer <;> decide)]
  have hPerm : order.Perm (f.controller.state.timers.expired now) :=
    (List.perm_ext_iff_of_nodup distinct ((by decide : Timer.all.Nodup).filter _)).mpr
      fun timer => (hDue timer).trans (hExpired timer).symm
  have hSame := hWindow.expire_perm hPerm fun timer => (hDue timer).mp
  have hEach := deliverEach_eq hWindow distinct fun timer => (hDue timer).mp
  rw [onTimeout, hWindow.onTimeout_eq, hEach, hSame]
  simp only [hPerm.mem_iff]
  exact ⟨_, _, rfl, rfl⟩

end

/-- A window of four packets is cut and freezes, and its second packet waits for the pacing timer. Both
timers are due at once: the packet may leave before the freeze ends, or after it. -/
theorem due_timers_of_frozen_window :
    let config : SenderConfig Float := { SenderConfig.standard with initialWindow := 4.0 }
    let start := withController 1 1000 (.start config .standard)
    let second := Span.millis 1000
    let ack := (Packet.ack 1 4 40 second 0).withFeedback (.ofCode .over)
    let f := (start.history [.send 0, .ack ack second]).2
    let now := Span.millis 1300
    build 1 config .standard = .ok start ∧
      f.deadline? .holdDownFirst = some (Span.millis 1200) ∧
      f.deadline? .pacing = some (Span.millis 1250) ∧ (returned (f.onTimeout now)).1.length = 1 ∧
      ∃ packets g, f.deliverEach now [.pacing, .holdDownFirst] = (.ok packets, g) ∧
        f.onTimeout now = (.ok packets, g) := by
  intro config start second ack f now
  have hValid : config.validate = .ok () :=
    SenderConfig.validate_eq_ok_iff.mpr (by decide +kernel)
  have hDue (timer : Timer) : timer ∈ [Timer.pacing, .holdDownFirst] ↔
      ∃ deadline, f.deadline? timer = some deadline ∧ deadline ≤ now := by
    refine Iff.trans ?_ Timetable.isExpired_iff
    cases timer <;> decide +kernel
  have hDistinct : [Timer.pacing, .holdDownFirst].Nodup := by decide
  have hAgree := deliverEach_eq_onTimeout config .standard 1 1000 [] [.send 0, .ack ack second] now
    hDistinct
  exact ⟨build_eq_ok_iff.mpr ⟨hValid, rfl⟩, by decide +kernel, by decide +kernel, by decide +kernel,
    hAgree hDue⟩

end Flow
end LoadFeedback
