import LoadFeedback.Proofs.LastSet
import LoadFeedback.Proofs.Link.Log
import LoadFeedback.Proofs.Sender.Reset

/-! Every part of a network that can start anew forgets its history when it does: windows, estimates of
the round trip, and the load measurement of links. A link keeps its settings, and the capacity is one of
them: it goes on with the last one that was accepted. -/
namespace LoadFeedback

variable {α : Type} [Scalar α]

namespace MeterEvent

/-- The capacity that an event sets, if links of this capacity are supported. -/
def accepted? : MeterEvent α → Option α
  | .capacity next => if Link.isSupported next then some next else none
  | _ => none

theorem isSupported_of_accepted? {event : MeterEvent α} {next : α}
    (h : event.accepted? = some next) : Link.isSupported next = true := by
  cases event with
  | capacity offered =>
      obtain ⟨hSupported, hNext⟩ := Option.ite_none_right_eq_some.mp h
      exact Option.some.inj hNext ▸ hSupported
  | arrival | sample | measure | timer | timeout | reset | close => cases h

end MeterEvent

/-- The settings of a link after some events: as they were, but for the last capacity that was
accepted. -/
def LinkConfig.revised (config : LinkConfig α) (events : List (MeterEvent α)) : LinkConfig α :=
  { config with capacity := (lastSet? MeterEvent.accepted? events).or config.capacity }

/-- Settings that are accepted are accepted with every other supported capacity. -/
theorem LinkConfig.Accepted.validate_capacity {config : LinkConfig α} {before capacity : α}
    (h : config.Accepted before) (supported : Link.isSupported capacity = true) :
    LinkConfig.validate { config with capacity := some capacity } = .ok capacity := by
  have hMeasurement := Nat.ne_of_gt h.measurementInterval_pos
  have hSampling := Nat.ne_of_gt h.samplingInterval_pos
  simp [validate, hMeasurement, hSampling, h.queueWeight_finite, h.queueWeight_nonneg, supported]

namespace Meter

variable {m : Meter α}

theorem setCapacity_eq_ok_iff (m : Meter α) (capacity : α) :
    (m.setCapacity capacity).1 = .ok () ↔ Link.isSupported capacity = true := by
  unfold setCapacity
  split <;> simp [*]

theorem reset_attempted (m : Meter α) (ended now : Instant) :
    (m.attempted ended).reset now = m.reset now := by
  unfold attempted
  split <;> rfl

theorem reset_onTimer (m : Meter α) (timer : Timer) (rang : Instant) (queueBytes : Nat)
    (now : Instant) : (m.onTimer timer rang queueBytes).2.reset now = m.reset now := by
  have hStep := delivers_onTimer m timer rang queueBytes
  generalize m.onTimer timer rang queueBytes = result at hStep ⊢
  cases hStep <;> rfl

/-- A reset link with an accepted capacity is a new link with this capacity. -/
def Renews (m : Meter α) (config : LinkConfig α) (capacity : α) : Prop :=
  ∀ now, m.reset now = Meter.start config capacity now

theorem Renews.setCapacity {config : LinkConfig α} {capacity next : α} (h : m.Renews config capacity)
    (supported : Link.isSupported next = true) : (m.setCapacity next).2.Renews config next := by
  intro now
  -- The target follows from the capacity alone, so it may as well be set after the reset.
  have hLater : (m.setCapacity next).2.reset now = ((m.reset now).setCapacity next).2.reset now := by
    simp only [Meter.setCapacity, supported, if_true]
    rfl
  rw [hLater, h now, Meter.setCapacity, if_pos supported]
  rfl

theorem Renews.start (config : LinkConfig α) (capacity : α) (begun : Instant) :
    (Meter.start config capacity begun).Renews config capacity := fun _ => rfl

/-- One event moves nothing that a reset keeps, but for the capacity. -/
theorem Renews.after {config : LinkConfig α} {capacity : α} (h : m.Renews config capacity)
    (event : MeterEvent α) :
    (m.after event).Renews config (event.accepted?.getD capacity) := by
  intro now
  cases event with
  | measure ended =>
      rw [Meter.after, measure_snd, reset_attempted]
      exact h now
  | capacity next =>
      cases hSupported : Link.isSupported next with
      | true =>
          rw [MeterEvent.accepted?, if_pos hSupported]
          exact h.setCapacity hSupported now
      | false =>
          rw [Meter.after, Meter.setCapacity, MeterEvent.accepted?, hSupported]
          exact h now
  | timer timer rang queueBytes => exact (m.reset_onTimer timer rang queueBytes now).trans (h now)
  | timeout rang queueBytes =>
      have hSame := deliver_keeps (P := fun n => n.reset now = m.reset now)
        (fun n timer hSame => (n.reset_onTimer timer rang queueBytes now).trans hSame)
        [.queueSampling, .loadMeasurement] m rfl
      exact hSame.trans (h now)
  | arrival | sample | reset | close => exact h now

theorem Renews.run {config : LinkConfig α} {capacity : α} (h : m.Renews config capacity)
    (events : List (MeterEvent α)) :
    (m.run events).Renews config ((lastSet? MeterEvent.accepted? events).getD capacity) := by
  induction events generalizing m capacity with
  | nil => exact h
  | cons event rest ih =>
      rw [lastSet?_cons, Option.getD_or]
      exact ih (h.after event)

/-- The settings of a link, with the last capacity that it accepted, build the link that a reset comes
to. -/
theorem build_revised {config : LinkConfig α} {begun : Instant} (built : build config begun = .ok m)
    (events : List (MeterEvent α)) (now : Instant) :
    build (config.revised events) now = .ok ((m.run events).reset now) := by
  obtain ⟨capacity, hValid, rfl⟩ := build_eq_ok_iff.mp built
  have hAccepted := LinkConfig.accepted_of_validate hValid
  have hReset := (Renews.start config capacity begun).run events now
  rw [build, hReset, LinkConfig.revised, hAccepted.capacity_eq]
  cases hLast : lastSet? MeterEvent.accepted? events with
  | none =>
      rw [Option.none_or, hAccepted.validate_capacity hAccepted.supported]
      rfl
  | some next =>
      obtain ⟨event, _, hNext⟩ := exists_of_lastSet? hLast
      rw [Option.some_or, hAccepted.validate_capacity (MeterEvent.isSupported_of_accepted? hNext)]
      rfl

end Meter

/-- Whatever happened to a window under either law, to an estimate of the round trip or to a link, and
in whatever order: a reset comes to the state that is built from the same settings, except that a link
keeps the last capacity that it accepted, among those of supported links. So a second reset changes
nothing, and no two histories can be told apart after one. -/
theorem reset_forgets_history {α : Type} [PowerScalar α] {link : LinkConfig α} {begun : Instant}
    {m : Meter α} (built : Meter.build link begun = .ok m) (config : SenderConfig α)
    (tables : WindowTables α) (initial : Span) :
    let coded := Controller.coded (.start config tables)
    let raw := Controller.raw (.start config)
    let roundTrip := RoundTrip.start initial
    (∀ events, (coded.run events).reset = coded ∧ (raw.run events).reset = raw) ∧
    (∀ events, (roundTrip.run events).reset = roundTrip) ∧
    (∀ events now, Meter.build (link.revised events) now = .ok ((m.run events).reset now)) ∧
    (∀ events next, ((m.run events).setCapacity next).1 = .ok () ↔ Link.isSupported next = true) ∧
    ((∀ c : Controller α, c.reset.reset = c.reset) ∧ (∀ r : RoundTrip, r.reset.reset = r.reset) ∧
      ∀ (n : Meter α) first second, (n.reset first).reset second = n.reset second) ∧
    (∀ events others, (coded.run events).reset = (coded.run others).reset ∧
      (raw.run events).reset = (raw.run others).reset) ∧
    (∀ events others, (roundTrip.run events).reset = (roundTrip.run others).reset) ∧
    ∀ events others, link.revised events = link.revised others →
      ∀ now, (m.run events).reset now = (m.run others).reset now := by
  intro coded raw roundTrip
  have hLink (events : List (MeterEvent α)) (now : Instant) := Meter.build_revised built events now
  refine ⟨fun events => ⟨coded.reset_run events, raw.reset_run events⟩, roundTrip.reset_run, hLink,
    fun events => (m.run events).setCapacity_eq_ok_iff, ⟨fun c => ?_, fun _ => rfl, fun _ _ _ => rfl⟩,
    fun events others => ⟨?_, ?_⟩, fun events others => ?_, fun events others hSame now => ?_⟩
  · cases c <;> rfl
  · rw [coded.reset_run, coded.reset_run]
  · rw [raw.reset_run, raw.reset_run]
  · rw [roundTrip.reset_run, roundTrip.reset_run]
  · have hBuilt := hLink events now
    rw [hSame, hLink others now] at hBuilt
    exact (Except.ok.inj hBuilt).symm

/-- A link that was slowed down, and not sped up beyond what is supported, is reset to a new link at the
lower capacity; a window that froze is reset to the initial one. -/
theorem reset_after_slowdown :
    let link : LinkConfig Float := { LinkConfig.standard with capacity := some 1e7 }
    let m := Meter.start link 1e7 0
    let events : List (MeterEvent Float) :=
      [.arrival 1000, .capacity 1e6, .timeout (Span.millis 200) 500, .capacity 1e13, .close]
    let window : Controller Float := .coded (.start .standard .standard)
    let ack := (Packet.ack 1 4 40 0 0).withFeedback (.ofCode .over)
    let frozen := window.run [.ack ack 0]
    let second := Span.millis 1000
    Meter.build link 0 = .ok m ∧ (m.run events).reading.intervals = 1 ∧
      (m.run events).reading.capacity = 1e6 ∧
      Meter.build (link.revised events) second = .ok ((m.run events).reset second) ∧
      frozen.phase = .first ∧ frozen.reset = window := by
  have hValid : { LinkConfig.standard with capacity := some (1e7 : Float) }.validate = .ok 1e7 := rfl
  intro link m events window ack frozen second
  have hBuilt : Meter.build link 0 = .ok m := Meter.build_eq_ok_iff.mpr ⟨1e7, hValid, rfl⟩
  obtain ⟨hWindow, _, hLink, _⟩ := reset_forgets_history hBuilt .standard .standard typicalRoundTrip
  exact ⟨hBuilt, by decide +kernel, by decide +kernel, hLink events second, by decide +kernel,
    (hWindow [.ack ack 0]).1⟩

end LoadFeedback
