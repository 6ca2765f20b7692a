import Mathlib.Algebra.GroupWithZero.Nat
import LoadFeedback.Proofs.Link.Log
import LoadFeedback.Proofs.Link.Occupancy

/-! What a link counts is what came to it. Every byte that is offered, and every sample of the queue,
belongs to exactly one interval, and a measurement is made of the counts of its own interval. -/
namespace LoadFeedback

variable {κ α : Type}

namespace Count

/-- The bytes that arrived, held at the largest count. -/
def load (counts : List Count) : Nat := min Meter.maxCount (sizes counts).sum

/-- The sum of the queue samples, held at the largest count. -/
def queueSum (counts : List Count) : Nat := min Meter.maxCount (samples counts).sum

/-- The mean of the queue samples; zero without samples. -/
def meanQueue [Scalar α] (counts : List Count) : α :=
  if samples counts = [] then 0.0
  else Scalar.ofNat (queueSum counts) / Scalar.ofNat (samples counts).length

end Count

/-- A measurement is made of what was counted in its interval, of how long the interval was, and of
what the link knew before. -/
structure Measurement.Evaluates [Scalar α] (x : Measurement α) (config : LinkConfig α) : Prop where
  start_lt : x.start < x.finish
  steadyQueue_eq : x.after.steadyQueue =
    Meter.blend x.before.steadyQueue (Count.meanQueue x.counts)
  utilization_eq : x.after.utilization =
    8.0 * (Scalar.ofNat (Count.load x.counts) + config.queueWeight * x.after.steadyQueue)
      / (x.before.capacity * Span.seconds (x.finish - x.start))
  loadFactor_eq : x.after.loadFactor =
    let latest := 100.0 * x.after.utilization / x.before.target
    if config.smoothing then Meter.blend x.before.loadFactor latest else latest
  feedback_eq : x.after.feedback =
    if config.encode then .ofCode (.ofLoadFactor x.after.loadFactor)
    else .ofLoadFactor x.after.loadFactor

namespace Meter

/-- The counters of a measurement hold what was counted, in whatever order it came. -/
structure Holds (m : Meter α) (counts : List Count) : Prop where
  load_eq : m.reading.load = Count.load counts
  queueSum_eq : m.reading.queueSum = Count.queueSum counts
  queueSamples_eq : m.reading.queueSamples = (Count.samples counts).length

namespace Holds

variable {m : Meter α} {counts : List Count}

theorem count (h : m.Holds counts) (c : Option Count) : (m.count c).Holds (counts ++ c.toList) := by
  have hAdd (sum more : Nat) : min maxCount (min maxCount sum + more) = min maxCount (sum + more) := by
    omega
  rcases c with _ | ⟨size⟩ | ⟨queueBytes⟩
  · simpa [Meter.count] using h
  · constructor
    case load_eq => simp [Meter.count, onArrival, h.load_eq, Count.load, hAdd]
    case queueSum_eq => simp [Meter.count, onArrival, h.queueSum_eq, Count.queueSum]
    case queueSamples_eq => simp [Meter.count, onArrival, h.queueSamples_eq]
  · constructor
    case load_eq => simp [Meter.count, sampleQueue, h.load_eq, Count.load]
    case queueSum_eq => simp [Meter.count, sampleQueue, h.queueSum_eq, Count.queueSum, hAdd]
    case queueSamples_eq => simp [Meter.count, sampleQueue, h.queueSamples_eq]

theorem congr (h : m.Holds counts) {n : Meter α} (load : n.reading.load = m.reading.load)
    (queueSum : n.reading.queueSum = m.reading.queueSum)
    (queueSamples : n.reading.queueSamples = m.reading.queueSamples) : n.Holds counts :=
  ⟨load.trans h.load_eq, queueSum.trans h.queueSum_eq, queueSamples.trans h.queueSamples_eq⟩

end Holds

variable [Scalar α]

/-- A measurement with these settings, which measures load factors against the target of its
capacity. -/
structure Configured (m : Meter α) (config : LinkConfig α) : Prop where
  queueWeight_eq : m.queueWeight = config.queueWeight
  smoothing_eq : m.smoothing = config.smoothing
  encode_eq : m.encode = config.encode
  target_eq : m.dynamicTarget = m.reading.target

theorem Holds.meanQueue_eq {m : Meter α} {counts : List Count} (h : m.Holds counts) :
    m.meanQueue = Count.meanQueue counts := by
  simp [meanQueue, Count.meanQueue, h.queueSum_eq, h.queueSamples_eq, List.length_pos_iff]

/-- The last count and all before it go into the measurement. -/
theorem Holds.evaluates {m : Meter α} {counts : List Count} (h : m.Holds counts)
    {config : LinkConfig α} (settings : m.Configured config) (c : Option Count) {now : Instant}
    (hElapsed : 0 < m.elapsed now) :
    Measurement.Evaluates ⟨counts ++ c.toList, m.intervalStart, now, m.reading,
      ((m.count c).measured now).reading⟩ config := by
  have hCounted := h.count c
  obtain ⟨load, queueSum, queueSamples, hCount⟩ := m.count_eq c
  rw [hCount] at hCounted ⊢
  constructor
  case start_lt => exact Nat.lt_of_sub_pos hElapsed
  case steadyQueue_eq =>
    rw [← hCounted.meanQueue_eq]
    rfl
  case utilization_eq =>
    rw [← hCounted.load_eq, ← settings.queueWeight_eq]
    rfl
  case loadFactor_eq =>
    rw [← settings.smoothing_eq, ← settings.target_eq]
    rfl
  case feedback_eq =>
    rw [← settings.encode_eq]
    rfl

theorem holds_reset (m : Meter α) (now : Instant) : (m.reset now).Holds [] := ⟨rfl, rfl, rfl⟩

end Meter

/-- A log that goes with a measurement. -/
structure LoggedMeter.Records [Scalar α] (g : LoggedMeter α) (config : LinkConfig α) : Prop where
  settings : g.meter.Configured config
  holds : g.meter.Holds g.log.counts
  start_eq : g.meter.intervalStart = g.log.start
  intervals_eq : g.meter.reading.intervals = g.log.past.length
  evaluates : ∀ x ∈ g.log.past, x.Evaluates config

theorem LoggedMeter.records_reset [Scalar α] {m : Meter α} {config : LinkConfig α}
    (h : m.Configured config) (now : Instant) : (start (m.reset now)).Records config :=
  ⟨⟨h.queueWeight_eq, h.smoothing_eq, h.encode_eq, rfl⟩, Meter.holds_reset m now, rfl, rfl,
    List.forall_mem_nil _⟩

theorem LoggedMeter.records_start [Scalar α] (config : LinkConfig α) (capacity : α) (now : Instant) :
    (start (.start config capacity now)).Records config :=
  ⟨⟨rfl, rfl, rfl, rfl⟩, Meter.holds_reset _ now, rfl, rfl, List.forall_mem_nil _⟩

namespace LoggedMeter.Records

variable [Scalar α] {g : LoggedMeter α} {config : LinkConfig α}

theorem after (h : g.Records config) (event : MeterEvent α) : (g.after event).Records config := by
  have hStep := g.meter.proceeds_after event
  have hCounted := h.holds.count (g.meter.counted? event)
  obtain ⟨_, _, _, hCount⟩ := g.meter.count_eq (g.meter.counted? event)
  obtain ⟨hWeight, hSmoothing, hEncode, hTarget⟩ := h.settings
  unfold LoggedMeter.after MeterLog.after
  generalize g.meter.after event = next at hStep ⊢
  cases hStep with
  | counted goesOn timers =>
      rw [goesOn]
      rw [hCount] at hCounted ⊢
      exact ⟨⟨hWeight, hSmoothing, hEncode, hTarget⟩, hCounted.congr rfl rfl rfl, h.start_eq,
        h.intervals_eq, h.evaluates⟩
  | @measured _ now ends hElapsed timers =>
      have hEvaluates := h.holds.evaluates h.settings (g.meter.counted? event) hElapsed
      rw [ends]
      rw [hCount] at hEvaluates ⊢
      constructor
      case settings => exact ⟨hWeight, hSmoothing, hEncode, hTarget⟩
      case holds => exact ⟨rfl, rfl, rfl⟩
      case start_eq => rfl
      case intervals_eq => simpa [Meter.measured, Meter.evaluate] using h.intervals_eq
      case evaluates =>
        intro x hx
        rcases List.mem_append.mp hx with hOld | hNew
        · exact h.evaluates x hOld
        · rw [List.mem_singleton.mp hNew, ← h.start_eq]
          exact hEvaluates
  | capacity capacity =>
      have hSame : g.log.counts ++ (g.meter.counted? (.capacity capacity)).toList = g.log.counts :=
        List.append_nil _
      rw [hSame]
      unfold Meter.setCapacity
      split
      · exact ⟨⟨hWeight, hSmoothing, hEncode, rfl⟩, h.holds.congr rfl rfl rfl, h.start_eq,
          h.intervals_eq, h.evaluates⟩
      · exact h
  | reset now => exact records_reset h.settings now

theorem run (h : g.Records config) (events : List (MeterEvent α)) : (g.run events).Records config := by
  induction events generalizing g with
  | nil => exact h
  | cons event rest ih => exact ih (h.after event)

end LoggedMeter.Records

theorem Meter.configured_run [Scalar α] (config : LinkConfig α) (capacity : α) (now : Instant)
    (events : List (MeterEvent α)) :
    ((start config capacity now).run events).Configured config := by
  have hSettings := ((LoggedMeter.records_start config capacity now).run events).settings
  rwa [LoggedMeter.meter_run] at hSettings

namespace MeterLog

variable [Scalar α]

/-- What a measurement has counted since its last reset, after one more event. -/
def history (counts : List Count) (m : Meter α) : MeterEvent α → List Count
  | .reset _ => []
  | event => counts ++ (m.counted? event).toList

/-- The end of an interval neither loses a count nor doubles one. -/
theorem allCounts_after (log : MeterLog α) (m : Meter α) (event : MeterEvent α) :
    (log.after m event).allCounts = history log.allCounts m event := by
  have hKept (h : ∀ now, event ≠ .reset now) :
      (log.after m event).allCounts = log.allCounts ++ (m.counted? event).toList := by
    unfold after
    split
    · simp [allCounts]
    · simp [allCounts]
    · next now hReset => exact absurd (Meter.eq_reset_of_ending hReset) (h now)
  cases event with
  | reset now => rfl
  | arrival | sample | measure | capacity | timer | timeout | close => exact hKept nofun

omit [Scalar α] in
/-- Counts that are not too many for one counter are not too many for any interval. -/
theorem sum_load (log : MeterLog α) (h : (Count.sizes log.allCounts).sum < UInt64.size) :
    (log.past.map (Count.load ·.counts)).sum + Count.load log.counts =
      (Count.sizes log.allCounts).sum := by
  have hLoad (counts : List Count) (hFits : (Count.sizes counts).sum < UInt64.size) :
      Count.load counts = (Count.sizes counts).sum := by
    unfold Count.load Meter.maxCount
    omega
  obtain ⟨past, counts, start⟩ := log
  induction past with
  | nil => simpa [allCounts] using hLoad counts (by simpa [allCounts] using h)
  | cons x rest ih =>
      simp only [allCounts, List.flatMap_cons, List.append_assoc, Count.sizes_append,
        List.sum_append, List.map_cons, List.sum_cons] at h ih ⊢
      have hRest := ih (by omega)
      have hFirst := hLoad x.counts (by omega)
      omega

end MeterLog

namespace DropTail

variable {q rest : DropTail} {p : Packet}

/-- The bytes of the packets that the queue holds. -/
def weight (q : DropTail) : Nat := (q.toList.map (·.size)).sum

/-- The queue counts the bytes of the packets that it holds. -/
def Weighed (q : DropTail) : Prop := q.byteCount = q.weight.toUInt64

theorem weighed_empty (limit : Nat) : (empty limit).Weighed := rfl

theorem weight_of_dequeue? (head : q.dequeue? = some (p, rest)) :
    q.weight = rest.weight + p.size := by
  rw [weight, (dequeue?_eq_some head).1, List.map_cons, List.sum_cons, Nat.add_comm, weight]

namespace Weighed

theorem bytes_eq (h : q.Weighed) : q.bytes = q.weight % UInt64.size :=
  congrArg UInt64.toNat h

theorem enqueue (h : q.Weighed) (p : Packet) : (q.enqueue p).2.Weighed := by
  unfold DropTail.enqueue
  split
  · exact h
  · have hBytes := congrArg (· + p.size.toUInt64) h
    simpa [Weighed, weight, toList, UInt64.add_assoc] using hBytes

theorem dequeue? (h : q.Weighed) (head : q.dequeue? = some (p, rest)) : rest.Weighed := by
  obtain ⟨_, _, _, hBytes⟩ := dequeue?_eq_some head
  rw [Weighed, hBytes, h, weight_of_dequeue? head, Nat.toUInt64_eq, UInt64.ofNat_add]
  exact UInt64.add_sub_cancel _ _

end Weighed

end DropTail

/-- The bytes that were offered since the last reset, after one more event. -/
def LinkEvent.offered (total : Nat) : LinkEvent α → Nat
  | .enqueue p => total + p.size
  | .arrival size => total + size
  | .reset _ => 0
  | _ => total

namespace MeteredQueue

variable [PacketQueue κ]

/-- What an event means to the measurement of a link. A departure means nothing to it. -/
def meterEvent? (l : MeteredQueue κ α) : LinkEvent α → Option (MeterEvent α)
  | .enqueue p => some (.arrival p.size)
  | .dequeue => none
  | .arrival size => some (.arrival size)
  | .sample => some (.sample (PacketQueue.bytes l.queue))
  | .measure now => some (.measure now)
  | .capacity capacity => some (.capacity capacity)
  | .timer timer now => some (.timer timer now (PacketQueue.bytes l.queue))
  | .timeout now => some (.timeout now (PacketQueue.bytes l.queue))
  | .reset now => some (.reset now)
  | .close => some .close

variable [Scalar α]

theorem meter_after_of_meterEvent?_eq_none {l : MeteredQueue κ α} {event : LinkEvent α}
    (h : l.meterEvent? event = none) : (l.after event).meter = l.meter := by
  cases event with
  | dequeue =>
      cases hHead : l.dequeue? with
      | none => simp [after, hHead]
      | some out => simpa [after, hHead] using meter_of_dequeue? hHead
  | enqueue | arrival | sample | measure | capacity | timer | timeout | reset | close => cases h

theorem meter_after_of_meterEvent? {l : MeteredQueue κ α} {event : LinkEvent α} {e : MeterEvent α}
    (h : l.meterEvent? event = some e) : (l.after event).meter = l.meter.after e := by
  cases event with
  | dequeue => cases h
  | enqueue | arrival | sample | measure | capacity | timer | timeout | reset | close =>
      cases h
      rfl

end MeteredQueue

variable [Scalar α]

/-- A link with its log. -/
structure LoggedLink (α : Type) where
  link : LinkQueue α
  log : MeterLog α
  /-- What was counted since the last reset, whatever interval it fell into. -/
  history : List Count

namespace LoggedLink

def start (l : LinkQueue α) : LoggedLink α := ⟨l, .empty l.meter.intervalStart, []⟩

def after (g : LoggedLink α) (event : LinkEvent α) : LoggedLink α :=
  let link := g.link.after event
  match g.link.meterEvent? event with
  | some e => ⟨link, g.log.after g.link.meter e, MeterLog.history g.history g.link.meter e⟩
  | none => ⟨link, g.log, g.history⟩

def run (g : LoggedLink α) (events : List (LinkEvent α)) : LoggedLink α := events.foldl after g

/-- The counters of a link and its log agree with what came to it. -/
structure Balances (g : LoggedLink α) (config : LinkConfig α) (offered : Nat) : Prop where
  weighed : g.link.queue.Weighed
  records : LoggedMeter.Records ⟨g.link.meter, g.log⟩ config
  allCounts_eq : g.log.allCounts = g.history
  sizes_eq : (Count.sizes g.history).sum = offered

theorem link_after (g : LoggedLink α) (event : LinkEvent α) :
    (g.after event).link = g.link.after event := by
  unfold after
  split <;> rfl

theorem link_run (g : LoggedLink α) (events : List (LinkEvent α)) :
    (g.run events).link = events.foldl MeteredQueue.after g.link := by
  induction events generalizing g with
  | nil => rfl
  | cons event rest ih => exact (ih (g.after event)).trans (by rw [link_after, List.foldl_cons])

theorem queue_weighed_after {l : LinkQueue α} (h : l.queue.Weighed) (event : LinkEvent α) :
    (l.after event).queue.Weighed := by
  cases event with
  | enqueue p => exact h.enqueue p
  | dequeue =>
      cases hHead : l.dequeue? with
      | none => simpa [MeteredQueue.after, hHead] using h
      | some out =>
          obtain ⟨_, hQueue, _⟩ := MeteredQueue.queue_of_dequeue? hHead
          simpa [MeteredQueue.after, hHead] using h.dequeue? hQueue
  | arrival | sample | measure | capacity | timer | timeout | reset | close => exact h

/-- Only the packets that come count as offered, those that the queue drops among them. -/
theorem sizes_after (g : LoggedLink α) (event : LinkEvent α) :
    (Count.sizes (g.after event).history).sum = event.offered (Count.sizes g.history).sum := by
  cases event with
  | enqueue p => simp [after, MeteredQueue.meterEvent?, MeterLog.history, Meter.counted?,
      LinkEvent.offered]
  | arrival size => simp [after, MeteredQueue.meterEvent?, MeterLog.history, Meter.counted?,
      LinkEvent.offered]
  | timeout now =>
      cases hDue : g.link.meter.timers.isExpired .queueSampling now <;>
        simp [after, MeteredQueue.meterEvent?, MeterLog.history, Meter.counted?, hDue,
          LinkEvent.offered]
  | timer timer now =>
      cases timer <;>
        simp [after, MeteredQueue.meterEvent?, MeterLog.history, Meter.counted?, LinkEvent.offered]
  | dequeue | reset => rfl
  | sample | measure | capacity | close =>
      simp [after, MeteredQueue.meterEvent?, MeterLog.history, Meter.counted?, LinkEvent.offered]

namespace Balances

variable {g : LoggedLink α} {config : LinkConfig α} {offered : Nat}

theorem after (h : g.Balances config offered) (event : LinkEvent α) :
    (g.after event).Balances config (event.offered offered) := by
  have hWeighed := queue_weighed_after h.weighed event
  have hSizes := (g.sizes_after event).trans (congrArg event.offered h.sizes_eq)
  unfold LoggedLink.after at hSizes ⊢
  cases hEvent : g.link.meterEvent? event with
  | none =>
      rw [hEvent] at hSizes
      have hRecords := h.records
      rw [← MeteredQueue.meter_after_of_meterEvent?_eq_none hEvent] at hRecords
      exact ⟨hWeighed, hRecords, h.allCounts_eq, hSizes⟩
  | some e =>
      rw [hEvent] at hSizes
      have hRecords := h.records.after e
      rw [LoggedMeter.after, ← MeteredQueue.meter_after_of_meterEvent? hEvent] at hRecords
      refine ⟨hWeighed, hRecords, ?_, hSizes⟩
      rw [MeterLog.allCounts_after, h.allCounts_eq]

theorem run (h : g.Balances config offered) (events : List (LinkEvent α)) :
    (g.run events).Balances config (events.foldl LinkEvent.offered offered) := by
  induction events generalizing g offered with
  | nil => exact h
  | cons event rest ih => exact ih (h.after event)

end Balances
end LoggedLink

/-- Whatever happens to a link, its counters hold the bytes that were offered and the samples of its
queue since the last measurement or reset, and every measurement is made of the counts of its own
interval. No count is lost, and none is in two intervals. The bytes of the queue are exact as long as a
word can hold them. -/
theorem MeteredQueue.counts_of_run {queue : DropTail} (weighed : queue.Weighed)
    {config : LinkConfig α} {now : Instant} {l : LinkQueue α}
    (built : build queue config now = .ok l) (events : List (LinkEvent α)) :
    let g := (LoggedLink.start l).run events
    let reading := g.link.meter.reading
    let offered := events.foldl LinkEvent.offered 0
    g.link = events.foldl after l ∧
    PacketQueue.bytes g.link.queue = (g.link.queue.toList.map (·.size)).sum % UInt64.size ∧
    ((g.link.queue.toList.map (·.size)).sum < UInt64.size →
      PacketQueue.bytes g.link.queue = (g.link.queue.toList.map (·.size)).sum) ∧
    reading.load = min Meter.maxCount (Count.sizes g.log.counts).sum ∧
    reading.queueSum = min Meter.maxCount (Count.samples g.log.counts).sum ∧
    reading.queueSamples = (Count.samples g.log.counts).length ∧
    reading.intervals = g.log.past.length ∧
    (∀ x ∈ g.log.past, x.Evaluates config) ∧
    g.log.past.flatMap (·.counts) ++ g.log.counts = g.history ∧
    (Count.sizes g.history).sum = offered ∧
    (offered < UInt64.size →
      (g.log.past.map (Count.load ·.counts)).sum + reading.load = offered) := by
  intro g reading offered
  obtain ⟨capacity, _, rfl⟩ := build_eq_ok_iff.mp built
  have hStart : (LoggedLink.start ⟨queue, .start config capacity now⟩).Balances config 0 :=
    ⟨weighed, LoggedMeter.records_start config capacity now, rfl, rfl⟩
  have hRun := hStart.run events
  have hHolds := hRun.records.holds
  refine ⟨LoggedLink.link_run _ events, hRun.weighed.bytes_eq,
    fun hWord => hRun.weighed.bytes_eq.trans (Nat.mod_eq_of_lt hWord), hHolds.load_eq, hHolds.queueSum_eq,
    hHolds.queueSamples_eq, hRun.records.intervals_eq, hRun.records.evaluates, hRun.allCounts_eq,
    hRun.sizes_eq, fun hFits => ?_⟩
  have hLoads := g.log.sum_load (by rwa [hRun.allCounts_eq, hRun.sizes_eq])
  rwa [← hHolds.load_eq, hRun.allCounts_eq, hRun.sizes_eq] at hLoads

/-- A link with room for one packet. The second packet is dropped, a measurement at once is refused,
and the sample and the interval of the next one are due at the same instant. -/
theorem MeteredQueue.dropped_packet_counted :
    let config : LinkConfig Float :=
      { LinkConfig.standard with capacity := some 1e7, samplingInterval := Span.millis 200 }
    let l : LinkQueue Float := ⟨.empty 1, .start config 1e7 0⟩
    let events : List (LinkEvent Float) :=
      [.enqueue (.data 1 0 1000 0), .enqueue (.data 1 1 500 0), .measure 0,
        .timeout (Span.millis 200), .dequeue, .arrival 40, .sample]
    let g := (LoggedLink.start l).run events
    (DropTail.empty 1).Weighed ∧ build (.empty 1) config 0 = .ok l ∧
    g.log.past.map (·.counts) = [[.offered 1000, .offered 500, .sampled 1000]] ∧
    g.log.counts = [.offered 40, .sampled 0] ∧
    events.foldl LinkEvent.offered 0 = 1540 ∧
    (g.log.past.map (Count.load ·.counts)).sum + g.link.meter.reading.load = 1540 := by
  have hValid : { LinkConfig.standard with
      capacity := some (1e7 : Float), samplingInterval := Span.millis 200 }.validate = .ok 1e7 := by
    rfl
  intro config l events g
  have hBuilt : build (.empty 1) config 0 = .ok l := build_eq_ok_iff.mpr ⟨1e7, hValid, rfl⟩
  have hRun := counts_of_run (DropTail.weighed_empty 1) hBuilt events
  have hOffered : events.foldl LinkEvent.offered 0 = 1540 := rfl
  obtain ⟨_, _, _, _, _, _, _, _, _, _, hSum⟩ := hRun
  refine ⟨DropTail.weighed_empty 1, hBuilt, by decide +kernel, by decide +kernel, hOffered, ?_⟩
  rw [← hOffered]
  exact hSum (by decide)

end LoadFeedback
