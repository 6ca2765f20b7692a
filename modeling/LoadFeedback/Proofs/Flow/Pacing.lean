import LoadFeedback.Proofs.Flow.Continuation

/-! Who releases the next packet of a paced window. Sending arms the pacing timer if more packets may
leave, and nothing but its delivery disarms it. The delivery releases one packet and does not arm the
timer again, so the packets behind this one wait for the next acknowledgment. -/
namespace LoadFeedback

variable {α : Type}

section

variable [Scalar α]

theorem WindowState.deadline?_pace {s : WindowState α} {interval : Span}
    (h : s.pacingInterval? = some interval) (now : Instant) :
    (s.pace now).2.timers.deadline? .pacing = some (now + interval) := by
  simp [pace, h]

namespace Coded

variable {c d : Coded α} {timer : Timer} {now : Instant} {timers : List Timer} {release released : Bool}

theorem pacingInterval?_onTimer (c : Coded α) (timer : Timer) (now : Instant) :
    (c.onTimer timer now).2.toWindowState.pacingInterval? = c.toWindowState.pacingInterval? := by
  have hStep := delivers_onTimer c timer now
  generalize c.onTimer timer now = result at hStep ⊢
  cases hStep <;> rfl

theorem pacingInterval?_deliver (c : Coded α) (now : Instant) (timers : List Timer) (release : Bool) :
    (c.deliver now timers release).2.toWindowState.pacingInterval? =
      c.toWindowState.pacingInterval? :=
  deliver_keeps (P := fun d => d.toWindowState.pacingInterval? = c.toWindowState.pacingInterval?)
    (fun d timer _ hSame => (d.pacingInterval?_onTimer timer now).trans hSame) timers c release rfl

theorem onTimer_pacing (c : Coded α) (now : Instant) :
    c.onTimer .pacing now = (.ok true, { c with timers := c.timers.stop .pacing }) := rfl

/-- A timer of the hold-down releases no packet and leaves the pacing timer alone. -/
theorem onTimer_of_ne_pacing (c : Coded α) (h : timer ≠ .pacing) (now : Instant) :
    (c.onTimer timer now).2.timers.deadline? .pacing = c.timers.deadline? .pacing ∧
      (c.onTimer timer now).1 ≠ .ok true := by
  have hStep := delivers_onTimer c timer now
  generalize c.onTimer timer now = result at hStep ⊢
  cases hStep with
  | thaw | lapse => exact ⟨by simp, by simp⟩
  | pacing => exact absurd rfl h
  | refused => exact ⟨by simp [h.symm], nofun⟩

/-- While the pacing timer is not due, the delivery of all due timers neither releases a packet nor
touches it. -/
theorem deliver_of_not_due (h : c.timers.isExpired .pacing now = false) (timers : List Timer) :
    (c.deliver now timers false).2.timers.deadline? .pacing = c.timers.deadline? .pacing ∧
      (c.deliver now timers false).1 ≠ .ok true := by
  induction timers generalizing c with
  | nil => exact ⟨rfl, by simp [deliver]⟩
  | cons timer rest ih =>
      unfold deliver
      split
      · next hDue =>
          have hOther : timer ≠ .pacing := fun hPacing => by simp [← hPacing, hDue] at h
          obtain ⟨hKept, hQuiet⟩ := c.onTimer_of_ne_pacing hOther now
          split
          · next more d hResult =>
              rw [hResult] at hKept hQuiet
              have hIdle : d.timers.isExpired .pacing now = false := by
                simpa only [Timetable.isExpired, hKept] using h
              have hMore : more = false := by simpa using hQuiet
              rw [hMore, Bool.or_false]
              exact (ih hIdle).imp (·.trans hKept) id
          · next fault d hResult =>
              rw [hResult] at hKept
              exact ⟨hKept, nofun⟩
      · exact ih h

/-- A due pacing timer that is last in the list is delivered. -/
theorem deliver_of_due {closed : Bool} (aligned : c.Aligned closed)
    (due : c.timers.isExpired .pacing now = true) (timers : List Timer) (others : .pacing ∉ timers)
    (release : Bool) : ∃ d, c.deliver now (timers ++ [.pacing]) release = (.ok true, d) ∧
      d.timers.deadline? .pacing = none := by
  induction timers generalizing c release with
  | nil =>
      refine ⟨(c.onTimer .pacing now).2, ?_, by simp [onTimer_pacing]⟩
      simp [deliver, due, onTimer_pacing]
  | cons timer rest ih =>
      obtain ⟨hOther, hRest⟩ : .pacing ≠ timer ∧ .pacing ∉ rest := by simpa using others
      rw [List.cons_append]
      unfold deliver
      split
      · next hDue =>
          obtain ⟨hTaken, _⟩ := aligned.onTimer_of_due hDue
          have hKept := (c.onTimer_of_ne_pacing (Ne.symm hOther) now).1
          have hStill : (c.onTimer timer now).2.timers.isExpired .pacing now = true := by
            simpa only [Timetable.isExpired, hKept] using due
          rw [← Prod.eta (c.onTimer timer now), hTaken]
          exact ih (aligned.onTimer timer now) hStill hRest (release || decide (timer = .pacing))
      · exact ih aligned due hRest release

end Coded

namespace Controller

variable {c : Controller α} {timer : Timer} {now : Instant}

theorem pacingInterval?_sent (c : Controller α) (paced : Bool) :
    (c.sent paced).pacingInterval? = c.pacingInterval? := by
  rw [pacingInterval?, sent, state_withState]
  cases paced <;> rfl

theorem pacingInterval?_onTimer (c : Controller α) (timer : Timer) (now : Instant) :
    (c.onTimer timer now).2.pacingInterval? = c.pacingInterval? := by
  cases c with
  | coded c => exact c.pacingInterval?_onTimer timer now
  | raw r => cases timer <;> rfl

theorem pacingInterval?_onTimeout (c : Controller α) (now : Instant) :
    (c.onTimeout now).2.pacingInterval? = c.pacingInterval? := by
  cases c with
  | coded c => exact c.pacingInterval?_deliver now [.holdDownFirst, .holdDownSecond, .pacing] false
  | raw r =>
      show (r.onTimeout now).2.toWindowState.pacingInterval? = r.toWindowState.pacingInterval?
      unfold Raw.onTimeout
      split <;> rfl

theorem Aligned.onTimeout (h : c.Aligned) (now : Instant) : (c.onTimeout now).2.Aligned := by
  cases c with
  | coded c => exact Coded.Aligned.onTimeout_keeps h now
  | raw r =>
      intro timer hTimer
      show (r.onTimeout now).2.timers.isPending timer = false
      unfold Raw.onTimeout
      split
      · simp [Raw.onTimer, h timer hTimer]
      · exact h timer hTimer

theorem aligned_reset (c : Controller α) : c.reset.Aligned := by
  cases c with
  | coded c => exact Coded.Aligned.of_idle rfl fun _ => rfl
  | raw r => exact fun timer _ => Timetable.isPending_empty timer

theorem onTimer_of_ne_pacing (c : Controller α) (h : timer ≠ .pacing) (now : Instant) :
    (c.onTimer timer now).2.deadline? .pacing = c.deadline? .pacing ∧
      (c.onTimer timer now).1 ≠ .ok true := by
  cases c with
  | coded c => exact c.onTimer_of_ne_pacing h now
  | raw r =>
      cases timer with
      | pacing => exact absurd rfl h
      | queueSampling | loadMeasurement | holdDownFirst | holdDownSecond => exact ⟨rfl, nofun⟩

theorem onTimeout_of_not_due (h : c.state.timers.isExpired .pacing now = false) :
    (c.onTimeout now).2.deadline? .pacing = c.deadline? .pacing ∧
      (c.onTimeout now).1 ≠ .ok true := by
  cases c with
  | coded c => exact Coded.deliver_of_not_due h [.holdDownFirst, .holdDownSecond, .pacing]
  | raw r =>
      have hIdle : r.onTimeout now = (.ok false, r) := by
        rw [Raw.onTimeout, show r.timers.isExpired .pacing now = false from h]
        rfl
      simp only [onTimeout, hIdle]
      exact ⟨rfl, nofun⟩

/-- The answer of a delivery of the pacing timer. -/
theorem onTimer_pacing (c : Controller α) (now : Instant) :
    ∃ d, c.onTimer .pacing now = (.ok true, d) ∧ d.deadline? .pacing = none := by
  refine ⟨(c.onTimer .pacing now).2, ?_, c.deadline?_onTimer .pacing now⟩
  cases c <;> rfl

theorem onTimeout_of_due (aligned : c.Aligned) (due : c.state.timers.isExpired .pacing now = true) :
    ∃ d, c.onTimeout now = (.ok true, d) ∧ d.deadline? .pacing = none := by
  cases c with
  | coded c =>
      obtain ⟨d, hResult, hIdle⟩ :=
        Coded.deliver_of_due aligned due [.holdDownFirst, .holdDownSecond] (by decide) false
      exact ⟨coded d, congrArg (Prod.map id coded) hResult, hIdle⟩
  | raw r =>
      have hDue : r.onTimeout now = r.onTimer .pacing := by
        rw [Raw.onTimeout, show r.timers.isExpired .pacing now = true from due]
        rfl
      simp only [onTimeout, hDue]
      exact (raw r).onTimer_pacing now

end Controller

end

namespace Flow

variable {f g : Flow α} {now : Instant}

section

variable [Scalar α]

/-- If a paced window lets another packet leave, the pacing timer is armed to release it. -/
def Wakes (f : Flow α) : Prop :=
  f.maySend = true → f.controller.pacingInterval?.isSome = true →
    (f.deadline? .pacing).isSome = true

/-- Nothing but the limit has changed in what may leave, in its pace, or in when the pacing timer
releases it. -/
structure SamePace (f g : Flow α) : Prop where
  nextSeq_eq : g.nextSeq = f.nextSeq
  acked_eq : g.acked = f.acked
  window_eq : g.controller.window = f.controller.window
  interval_eq : g.controller.pacingInterval? = f.controller.pacingInterval?
  deadline_eq : g.deadline? .pacing = f.deadline? .pacing

namespace SamePace

theorem refl (f : Flow α) : f.SamePace f := ⟨rfl, rfl, rfl, rfl, rfl⟩

theorem trans {h : Flow α} (first : f.SamePace g) (second : g.SamePace h) : f.SamePace h where
  nextSeq_eq := second.nextSeq_eq.trans first.nextSeq_eq
  acked_eq := second.acked_eq.trans first.acked_eq
  window_eq := second.window_eq.trans first.window_eq
  interval_eq := second.interval_eq.trans first.interval_eq
  deadline_eq := second.deadline_eq.trans first.deadline_eq

/-- A higher limit does no harm while the timer is armed. -/
theorem wakes (same : f.SamePace g) (hWakes : f.Wakes)
    (hLimit : g.limit ≤ f.limit ∨ (f.deadline? .pacing).isSome = true) : g.Wakes := by
  intro hMay hPaced
  rw [same.deadline_eq]
  rcases hLimit with hLower | hArmed
  · rw [maySend_iff, same.nextSeq_eq, same.acked_eq, same.window_eq] at hMay
    rw [same.interval_eq] at hPaced
    exact hWakes (f.maySend_iff.mpr (by omega)) hPaced
  · exact hArmed

end SamePace

theorem maySend_withController (f : Flow α) {controller : Controller α}
    (h : controller.window = f.controller.window) :
    Flow.maySend { f with controller := controller } = f.maySend := by
  have hBound : Flow.allowance { f with controller := controller } = f.allowance := by
    simp only [allowance, h]
  rw [maySend, maySend, hBound]

theorem maySend_burst (f : Flow α) (now : Instant) : (f.burst now).2.maySend = false := by
  fun_induction burst f now with
  | case1 f may sent rest ih => exact ih
  | case2 f mayNot => simpa using mayNot

/-- What may leave leaves at once, or the pacing timer is armed for it. -/
theorem wakes_sendMany (f : Flow α) (now : Instant) : (f.sendMany now).2.Wakes := by
  unfold sendMany
  split
  · split
    · next hPaced =>
        dsimp only
        split
        · intro _ _
          obtain ⟨interval, hInterval⟩ := Option.isSome_iff_exists.mp hPaced
          have hNext : (f.controller.sent false).state.pacingInterval? = some interval :=
            (f.controller.pacingInterval?_sent false).trans hInterval
          have hArmed := WindowState.deadline?_pace hNext now
          show (((f.controller.sent false).pace now).2.deadline? .pacing).isSome = true
          simp only [Controller.pace, Controller.deadline?, Prod.map, Controller.state_withState,
            hArmed, Option.isSome_some]
        · next hDone => exact fun hMay => absurd hMay hDone
    · intro hMay
      cases (f.maySend_burst now).symm.trans hMay
  · next hDone => exact fun hMay => absurd hMay hDone

/-- Timers that release nothing. -/
theorem afterTimers_of_idle {result : Attempt (Controller α) Bool}
    (hAgrees : f.controller.state.Agrees result.2.state)
    (hInterval : result.2.pacingInterval? = f.controller.pacingInterval?)
    (hKept : result.2.deadline? .pacing = f.deadline? .pacing) (hIdle : result.1 ≠ .ok true)
    (now : Instant) : (returned (f.afterTimers now result)).1 = [] ∧
      f.SamePace (returned (f.afterTimers now result)).2 := by
  obtain ⟨outcome, controller⟩ := result
  have hSame : f.SamePace { f with controller := controller } :=
    ⟨rfl, rfl, hAgrees.window_eq, hInterval, hKept⟩
  cases outcome with
  | error fault => exact ⟨rfl, hSame⟩
  | ok released =>
      have hNone : released = false := by simpa using hIdle
      subst hNone
      exact ⟨rfl, hSame⟩

/-- The pacing timer releases one packet, if one may leave. It is not armed for the next. -/
theorem afterTimers_of_released {controller : Controller α}
    (hAgrees : f.controller.state.Agrees controller.state)
    (hIdle : controller.deadline? .pacing = none) (now : Instant) :
    (returned (f.afterTimers now (.ok true, controller))).1.length = (if f.maySend then 1 else 0) ∧
      (returned (f.afterTimers now (.ok true, controller))).2.deadline? .pacing = none := by
  have hMay := f.maySend_withController hAgrees.window_eq
  simp only [afterTimers, release, Bool.true_and, hMay, returned]
  split
  · exact ⟨rfl, (controller.deadline?_sent true .pacing).trans hIdle⟩
  · exact ⟨rfl, hIdle⟩

end

/-- A call that delivers the pacing timer. -/
def Rings (f : Flow α) : FlowEvent → Prop
  | .timer timer _ => timer = .pacing
  | .timeout now => f.controller.state.timers.isExpired .pacing now = true
  | _ => False

/-- A call that may send what the window allows: one to do so, or a new acknowledgment that is taken. -/
def Opens (f : Flow α) : FlowEvent → Prop
  | .send _ => True
  | .ack p _ => ¬f.Refuses p ∧ f.acked < p.seq
  | _ => False

/-- A call that neither delivers the pacing timer nor may send: an acknowledgment that is refused or
brings nothing new, other timers, or another limit. -/
def Idles (f : Flow α) : FlowEvent → Prop
  | .ack p _ => f.Refuses p ∨ p.seq ≤ f.acked
  | .timer timer _ => timer ≠ .pacing
  | .timeout now => f.controller.state.timers.isExpired .pacing now = false
  | .limit _ => True
  | _ => False

theorem opens_or_rings_or_idles (f : Flow α) {event : FlowEvent} (notClosed : event ≠ .close)
    (notReset : event ≠ .reset) : f.Opens event ∨ f.Rings event ∨ f.Idles event := by
  cases event with
  | send now => exact Or.inl trivial
  | ack p now =>
      by_cases hOpens : ¬f.Refuses p ∧ f.acked < p.seq
      · exact Or.inl hOpens
      · refine Or.inr (Or.inr ?_)
        rcases Classical.not_and_iff_not_or_not.mp hOpens with hRefused | hOld
        · exact Or.inl (Classical.not_not.mp hRefused)
        · exact Or.inr (Nat.le_of_not_lt hOld)
  | timer timer now => exact Or.inr (Decidable.em (timer = .pacing))
  | timeout now => exact Or.inr (Bool.eq_false_or_eq_true _)
  | limit packets => exact Or.inr (Or.inr trivial)
  | close => exact absurd rfl notClosed
  | reset => exact absurd rfl notReset

variable [PowerScalar α] {event : FlowEvent}

theorem wakes_of_opens (h : f.Opens event) : (f.after event).2.Wakes := by
  cases event with
  | send now => exact f.wakes_sendMany now
  | ack p now =>
      obtain ⟨hTaken, hNew⟩ := h
      obtain ⟨_, hSent, hOld | ⟨_, hCheck⟩⟩ := cases_of_not_refuses hTaken
      · omega
      · obtain ⟨window, _, hAccept⟩ := accept_eq_of_check now hCheck
        rw [after, onAck_eq_accept hNew hSent hCheck now, hAccept]
        exact wakes_sendMany _ now
  | timer | timeout | limit | close | reset => exact h.elim

theorem after_of_idles (h : f.Idles event) :
    (f.after event).1 = [] ∧ f.SamePace (f.after event).2 := by
  cases event with
  | ack p now =>
      by_cases hRefused : f.Refuses p
      · obtain ⟨fault, hResult⟩ := onAck_of_refuses hRefused now
        rw [after, hResult]
        exact ⟨rfl, .refl f⟩
      · obtain ⟨hAck, hSent, _⟩ := cases_of_not_refuses hRefused
        rw [after, onAck_of_seq_le_acked hAck hSent (h.resolve_left hRefused) now]
        exact ⟨rfl, { SamePace.refl f with }⟩
  | timer timer now =>
      obtain ⟨hKept, hIdle⟩ := f.controller.onTimer_of_ne_pacing h now
      exact afterTimers_of_idle (f.controller.agrees_onTimer timer now)
        (f.controller.pacingInterval?_onTimer timer now) hKept hIdle now
  | timeout now =>
      obtain ⟨hKept, hIdle⟩ := Controller.onTimeout_of_not_due h
      exact afterTimers_of_idle (f.controller.agrees_onTimeout now)
        (f.controller.pacingInterval?_onTimeout now) hKept hIdle now
  | limit packets => exact ⟨rfl, { SamePace.refl f with }⟩
  | send | close | reset => exact h.elim

theorem after_of_rings (aligned : f.controller.Aligned) (h : f.Rings event) :
    (f.after event).1.length = (if f.maySend then 1 else 0) ∧
      (f.after event).2.deadline? .pacing = none := by
  cases event with
  | timer timer now =>
      obtain rfl : timer = .pacing := h
      have hAgrees := f.controller.agrees_onTimer .pacing now
      obtain ⟨controller, hResult, hIdle⟩ := f.controller.onTimer_pacing now
      rw [hResult] at hAgrees
      rw [after, onTimer, hResult]
      exact afterTimers_of_released hAgrees hIdle now
  | timeout now =>
      have hAgrees := f.controller.agrees_onTimeout now
      obtain ⟨controller, hResult, hIdle⟩ := Controller.onTimeout_of_due aligned h
      rw [hResult] at hAgrees
      rw [after, onTimeout, hResult]
      exact afterTimers_of_released hAgrees hIdle now
  | send | ack | limit | close | reset => exact h.elim

/-- Every call of the list only finds nothing to send and no paced packet to release. -/
def Quiet (f : Flow α) : List FlowEvent → Prop
  | [] => True
  | event :: rest => f.Idles event ∧ (f.after event).2.Quiet rest

theorem Quiet.foldl (past : List Packet × Flow α) {later : List FlowEvent} (h : past.2.Quiet later) :
    (later.foldl extend past).1 = past.1 ∧ past.2.SamePace (later.foldl extend past).2 := by
  induction later generalizing past with
  | nil => exact ⟨rfl, .refl past.2⟩
  | cons event rest ih =>
      obtain ⟨hIdles, hRest⟩ := h
      obtain ⟨hNone, hSame⟩ := after_of_idles hIdles
      have hReset : event ≠ .reset := fun hEq => by simp [hEq, Idles] at hIdles
      have hKept : (extend past event).1 = past.1 := by
        rw [extend, event.kept_of_ne hReset, hNone, List.append_nil]
      obtain ⟨hPackets, hLater⟩ := ih (extend past event) hRest
      exact ⟨hPackets.trans hKept, hSame.trans hLater⟩

theorem Quiet.history {later : List FlowEvent} (h : f.Quiet later) :
    (f.history later).1 = [] ∧ f.SamePace (f.history later).2 :=
  foldl ([], f) h

/-- Without the pacing timer, timeouts have nothing to release. -/
theorem quiet_timeouts (h : f.deadline? .pacing = none) (instants : List Instant) :
    f.Quiet (instants.map .timeout) := by
  induction instants generalizing f with
  | nil => trivial
  | cons now rest ih =>
      have hIdles : f.Idles (.timeout now) := by
        show f.controller.state.timers.isExpired .pacing now = false
        rw [Timetable.isExpired, show f.controller.state.timers.deadline? .pacing = none from h]
      exact ⟨hIdles, ih ((after_of_idles hIdles).2.deadline_eq.trans h)⟩

omit [PowerScalar α] in
theorem aligned_of_build [Scalar α] {id : Nat} {config : SenderConfig α} {tables : WindowTables α}
    (built : build id config tables = .ok f) : f.controller.Aligned := by
  obtain ⟨_, rfl⟩ := build_eq_ok_iff.mp built
  exact Controller.aligned_start config tables

theorem aligned_afterTimers {result : Attempt (Controller α) Bool} (h : result.2.Aligned)
    (now : Instant) : (returned (f.afterTimers now result)).2.controller.Aligned := by
  obtain ⟨outcome, controller⟩ := result
  cases outcome with
  | ok released => exact (departs_release _ released now).continues.controller.aligned h
  | error fault => exact h

/-- The timers keep to the phases of the window as long as they are not all disarmed. -/
theorem aligned_after (h : f.controller.Aligned) {event : FlowEvent} (notClosed : event ≠ .close) :
    (f.after event).2.controller.Aligned := by
  cases event with
  | send now => exact (continues_sendMany f now).controller.aligned h
  | ack p now =>
      cases hResult : f.onAck p now with
      | mk outcome g =>
          rw [after, hResult]
          cases outcome with
          | ok packets => exact (continues_onAck hResult).controller.aligned h
          | error fault =>
              obtain ⟨_, hSame⟩ := onAck_of_refuses ((f.refuses_iff p now).mp ⟨fault, by rw [hResult]⟩) now
              rw [hSame] at hResult
              cases hResult
              exact h
  | timer timer now =>
      exact aligned_afterTimers ((f.controller.continues_onTimer timer now).aligned h) now
  | timeout now => exact aligned_afterTimers (h.onTimeout now) now
  | limit packets => exact h
  | close => exact absurd rfl notClosed
  | reset => exact f.controller.aligned_reset

theorem aligned_history (h : f.controller.Aligned) {events : List FlowEvent}
    (notClosed : ∀ event ∈ events, event ≠ .close) : (f.history events).2.controller.Aligned :=
  history_keeps (P := fun f => f.controller.Aligned) h
    fun _ event hEvent hPast => aligned_after hPast (notClosed event hEvent)

/-- Whatever was called before, short of closing the flow: a call that may send what the window allows
leaves the pacing timer armed if more packets of a paced window may leave. Calls that neither send nor
deliver the timer keep it armed; only a higher limit can let packets leave that no timer was armed for.
The delivery releases one packet and disarms the timer, so the timer is missing afterwards exactly if a
further packet may leave in a paced window. That packet waits for a call that may send: until then
nothing leaves, and no timeout changes that. -/
theorem pacing_wakes_until_delivered {id : Nat} {config : SenderConfig α} {tables : WindowTables α}
    {start : Flow α} (built : build id config tables = .ok start) (before : List FlowEvent)
    (notClosed : ∀ event ∈ before, event ≠ .close) (call : FlowEvent) (later : List FlowEvent) :
    let f := (start.history before).2
    let g := (f.after call).2
    let h := (g.history later).2
    (call ≠ .close → call ≠ .reset → f.Opens call ∨ f.Rings call ∨ f.Idles call) ∧
    (f.Opens call → g.Quiet later →
      h.limit ≤ g.limit ∨ (g.deadline? .pacing).isSome = true → h.Wakes) ∧
    (f.Rings call → (f.after call).1.length = (if f.maySend then 1 else 0) ∧
      (g.Quiet later → (g.history later).1 = [] ∧ h.deadline? .pacing = none ∧
        (h.Wakes ↔ ¬(h.maySend = true ∧ h.controller.pacingInterval?.isSome = true))) ∧
      ∀ instants : List Instant, g.Quiet (instants.map .timeout)) := by
  intro f g h
  have hAligned : f.controller.Aligned := aligned_history (aligned_of_build built) notClosed
  refine ⟨f.opens_or_rings_or_idles,
    fun hOpens hQuiet => hQuiet.history.2.wakes (wakes_of_opens hOpens), fun hRings => ?_⟩
  obtain ⟨hOne, hIdle⟩ := after_of_rings hAligned hRings
  refine ⟨hOne, fun hQuiet => ?_, quiet_timeouts hIdle⟩
  obtain ⟨hNone, hSame⟩ := hQuiet.history
  have hDisarmed : h.deadline? .pacing = none := hSame.deadline_eq.trans hIdle
  refine ⟨hNone, hDisarmed, ?_⟩
  rw [Wakes, hDisarmed]
  simp

/-- A window of four packets over a second is acknowledged at once. One packet of the next window leaves
then, and the pacing timer is armed for the second one until it is delivered. -/
theorem pacing_wakes_in_window_of_four :
    let config : SenderConfig Float :=
      { SenderConfig.standard with initialWindow := 4.0, maxWindow := some 4.0 }
    let start := withController 1 1000 (.start config .standard)
    let second := Span.millis 1000
    let ack := FlowEvent.ack ((Packet.ack 1 4 40 second 0).withFeedback (.ofCode .high)) second
    let opened := ((start.history [.send 0]).2.after ack).2
    let acknowledged := (start.history [.send 0, ack]).2
    let woken := acknowledged.after (.timeout (Span.millis 1250))
    build 1 config .standard = .ok start ∧ opened.deadline? .pacing = some (Span.millis 1250) ∧
      (opened.history [.timeout (Span.millis 1240)]).2.Wakes ∧
      acknowledged.maySend = true ∧ woken.1.length = 1 ∧
      (woken.2.history [.timeout (Span.millis 1500)]).1 = [] := by
  intro config start second ack opened acknowledged woken
  have hValid : config.validate = .ok () :=
    SenderConfig.validate_eq_ok_iff.mpr (by decide +kernel)
  have hBuilt : build 1 config .standard = .ok start := build_eq_ok_iff.mpr ⟨hValid, rfl⟩
  have hOpens : (start.history [.send 0]).2.Opens ack := by
    simp only [Opens, Refuses]
    decide +kernel
  have hArmed : opened.deadline? .pacing = some (Span.millis 1250) := by decide +kernel
  have hIdles : opened.Idles (.timeout (Span.millis 1240)) := by
    simp only [Idles]
    decide +kernel
  have hRings : acknowledged.Rings (.timeout (Span.millis 1250)) := by
    simp only [Rings]
    decide +kernel
  have hMay : acknowledged.maySend = true := by decide +kernel
  obtain ⟨_, hWakes, _⟩ := pacing_wakes_until_delivered hBuilt [.send 0] (by simp) ack
    [.timeout (Span.millis 1240)]
  obtain ⟨_, _, hWoken⟩ := pacing_wakes_until_delivered hBuilt [.send 0, ack] (by simp [ack])
    (.timeout (Span.millis 1250)) [.timeout (Span.millis 1500)]
  obtain ⟨hOne, hAfter, hTimeouts⟩ := hWoken hRings
  exact ⟨hBuilt, hArmed, hWakes hOpens ⟨hIdles, trivial⟩ (Or.inr (Option.isSome_of_eq_some hArmed)),
    hMay, hOne.trans (if_pos hMay), (hAfter (hTimeouts [Span.millis 1500])).1⟩

/-- The timer releases the second packet of the window and is not armed for the other two, which may
leave: however often and whenever the flow is called for a timeout, they stay. -/
theorem rest_of_window_not_released :
    let config : SenderConfig Float :=
      { SenderConfig.standard with initialWindow := 4.0, maxWindow := some 4.0 }
    let start := withController 1 1000 (.start config .standard)
    let second := Span.millis 1000
    let ack := (Packet.ack 1 4 40 second 0).withFeedback (.ofCode .high)
    let woken := (start.history [.send 0, .ack ack second, .timeout (Span.millis 1250)]).2
    build 1 config .standard = .ok start ∧ woken.inFlight = 2 ∧ woken.allowance = woken.nextSeq + 2 ∧
      woken.controller.pacingInterval? = some (Span.millis 250) ∧ ¬woken.Wakes ∧
      woken.timeout? = none ∧
      ∀ instants : List Instant, (woken.history (instants.map .timeout)).1 = [] := by
  intro config start second ack woken
  have hValid : config.validate = .ok () :=
    SenderConfig.validate_eq_ok_iff.mpr (by decide +kernel)
  have hBuilt : build 1 config .standard = .ok start := build_eq_ok_iff.mpr ⟨hValid, rfl⟩
  have hMay : woken.maySend = true := by decide +kernel
  have hInterval : woken.controller.pacingInterval? = some (Span.millis 250) := by decide +kernel
  have hIdle : woken.deadline? .pacing = none := by decide +kernel
  refine ⟨hBuilt, by decide +kernel, by decide +kernel, hInterval, fun hWakes => ?_, by decide +kernel,
    fun instants => (quiet_timeouts hIdle instants).history.1⟩
  have hArmed := hWakes hMay (by rw [hInterval]; rfl)
  rw [hIdle] at hArmed
  cases hArmed

end Flow
end LoadFeedback
