import LoadFeedback.Proofs.Flow.AckClock
import LoadFeedback.Proofs.Receiver.Sink
import LoadFeedback.Simulation.State
import Mathlib.Data.List.Sort

/-! The packets of one flow, by their numbers, on a path that keeps their order and may lose some. A
strand changes in four ways only: packets leave, one is lost, one is delivered and answered, or an
acknowledgment is handed to the sender. -/
namespace LoadFeedback

/-- The numbers of the packets of a flow, in the order of the path. -/
structure Strand where
  /-- Data packets that came to the receiver. -/
  delivered : List Nat
  /-- Data packets behind them. -/
  underway : List Nat
  lost : List Nat
  /-- Acknowledgments that came to the sender. -/
  handed : List Nat
  /-- Acknowledgments behind them. -/
  returning : List Nat

namespace Strand

variable {α : Type} {x : Strand} {session next : Session α} {packets : List Packet}

def empty : Strand := ⟨[], [], [], [], []⟩

/-- Data packets are lost or in order, and the receiver has exactly those that were delivered. -/
structure Conserves (x : Strand) (session : Session α) : Prop where
  accounted : ∃ sent, session.flow.Accounted sent
  rising : (x.delivered ++ x.underway).Pairwise (· < ·)
  complete : (x.delivered ++ x.underway ++ x.lost).Perm (List.range session.flow.nextSeq)
  holds : session.sink.acknowledger.assembly.Holds x.delivered
  first : session.sink.lastReset = none
  acks_eq : session.sink.tally.acks = x.delivered.length
  discarded_eq : session.sink.tally.discarded = 0

namespace Conserves

theorem of_start {controller : Controller α} [Scalar α] {id packetSize ackSize : Nat}
    (hFlow : session.flow = .withController id packetSize controller)
    (hWindow : controller.state.tally = {}) (hSink : session.sink = .start ackSize) :
    empty.Conserves session where
  accounted := ⟨[], hFlow ▸ .of_start rfl rfl rfl hWindow⟩
  rising := .nil
  complete := by
    rw [hFlow]
    exact .nil
  holds := hSink ▸ Assembly.holds_empty
  first := hSink ▸ rfl
  acks_eq := hSink ▸ rfl
  discarded_eq := hSink ▸ rfl

theorem lt_nextSeq (h : x.Conserves session) {seq : Nat} (hSeq : seq ∈ x.delivered ++ x.underway) :
    seq < session.flow.nextSeq :=
  List.mem_range.mp (h.complete.mem_iff.mp (List.mem_append_left _ hSeq))

theorem length_eq (h : x.Conserves session) :
    session.flow.nextSeq = x.delivered.length + x.underway.length + x.lost.length := by
  have hLength := h.complete.length_eq
  simp only [List.length_append, List.length_range] at hLength
  exact hLength.symm

/-- Without a loss the packets are all there, without a gap. -/
theorem lossless (h : x.Conserves session) (hLost : x.lost = []) :
    x.delivered ++ x.underway = List.range session.flow.nextSeq := by
  have hPerm := h.complete
  rw [hLost, List.append_nil] at hPerm
  exact hPerm.eq_of_pairwise' h.rising List.pairwise_lt_range

theorem delivered_eq (h : x.Conserves session) (hLost : x.lost = []) :
    x.delivered = List.range x.delivered.length := by
  have hTrail := congrArg (List.take x.delivered.length) (h.lossless hLost)
  rw [List.take_left, List.take_range] at hTrail
  rwa [Nat.min_eq_left (by have := h.length_eq; omega)] at hTrail

/-- Without a loss the receiver waits for the packet after those delivered. -/
theorem cumulative_eq (h : x.Conserves session) (hLost : x.lost = []) :
    session.sink.cumulative = x.delivered.length := by
  have hHolds := h.holds
  rw [h.delivered_eq hLost] at hHolds
  apply Nat.le_antisymm
  · exact hHolds.missing_le (by simp)
  · have hMissing := hHolds.missing_notMem
    rw [List.mem_range, Nat.not_lt] at hMissing
    exact hMissing

/-- A packet is lost on the way. -/
theorem lose (h : x.Conserves session) {before after : List Nat} {seq : Nat}
    (hPlace : x.underway = before ++ seq :: after) :
    Conserves { x with underway := before ++ after, lost := x.lost ++ [seq] } session := by
  have hRising := h.rising
  have hComplete := h.complete
  rw [hPlace] at hRising hComplete
  refine { h with rising := hRising.sublist ?_, complete := .trans ?_ hComplete }
  · exact ((List.sublist_cons_self seq after).append_left before).append_left x.delivered
  · rw [List.perm_iff_count]
    intro other
    simp only [List.count_append, List.count_cons, List.count_nil]
    omega

/-- The first packet on the way is taken by the receiver. -/
theorem deliver (h : x.Conserves session) {p : Packet} {rest : List Nat}
    (hFirst : x.underway = p.seq :: rest) (returning : List Nat) :
    Conserves
      { x with delivered := x.delivered ++ [p.seq], underway := rest, returning := returning }
      { session with sink := session.sink.take p } := by
  have hTrail : x.delivered ++ [p.seq] ++ rest = x.delivered ++ x.underway := by
    rw [hFirst, List.append_assoc, List.singleton_append]
  exact
    { accounted := h.accounted
      rising := hTrail ▸ h.rising
      complete := hTrail ▸ h.complete
      holds := h.holds.record p.seq
      first := h.first
      acks_eq := by simp [Sink.take, SinkTally.count, h.acks_eq]
      discarded_eq := h.discarded_eq }

/-- The sink takes whatever data packet comes. -/
theorem onData (h : x.Conserves session) {p : Packet} (hData : p.isData = true) (now : Instant) :
    session.sink.onData p now = (.ok (some (session.sink.answer p now)), session.sink.take p) :=
  Sink.onData_of_data hData (by rw [Sink.isStale, h.first]) now

theorem cumulative_mono (h : x.Conserves session) (p : Packet) :
    session.sink.cumulative ≤ (session.sink.take p).cumulative :=
  h.holds.missing_mono (h.holds.record p.seq)

variable [PowerScalar α]

/-- Packets leave with the next numbers. -/
theorem send (h : x.Conserves session) (event : FlowEvent) (notReset : event ≠ .reset)
    (next : Session α) (call : session.flow.after event = (packets, next.flow))
    (sink : next.sink = session.sink) :
    Conserves { x with underway := x.underway ++ packets.map (·.seq) } next := by
  obtain ⟨sent, hAccounted⟩ := h.accounted
  have hSent := hAccounted.after event
  obtain ⟨hNumbers, hNext⟩ := session.flow.numbers_after notReset
  rw [call] at hSent hNumbers hNext
  dsimp only at hNumbers hNext
  have hRange : List.range next.flow.nextSeq =
      List.range session.flow.nextSeq ++ packets.map (·.seq) := by
    rw [hNext, hNumbers, List.range_eq_range', List.range_eq_range',
      ← List.range'_append_1, Nat.zero_add]
  refine
    { accounted := ⟨_, hSent⟩
      rising := ?_
      complete := ?_
      holds := sink ▸ h.holds
      first := sink ▸ h.first
      acks_eq := sink ▸ h.acks_eq
      discarded_eq := sink ▸ h.discarded_eq }
  · rw [← List.append_assoc]
    refine List.pairwise_append.mpr ⟨h.rising, ?_, fun old hOld new hNew => ?_⟩
    · rw [hNumbers]
      exact List.pairwise_lt_range'
    · rw [hNumbers, List.mem_range'_1] at hNew
      exact Nat.lt_of_lt_of_le (h.lt_nextSeq hOld) hNew.1
  · rw [hRange]
    refine .trans ?_ (h.complete.append_right _)
    rw [List.perm_iff_count]
    intro other
    simp only [List.count_append]
    omega

end Conserves

/-- Acknowledgments come back in order, and without a loss each of them is new. -/
structure Clocks [Scalar α] (x : Strand) (session : Session α) : Prop where
  growing : (x.handed ++ x.returning).Pairwise (· ≤ ·)
  answered : ∀ seq ∈ x.handed ++ x.returning, seq ≤ session.sink.cumulative
  limit_eq : session.flow.limit = Flow.maxSeq
  running : session.startedAt.isSome = true → session.flow.Running
  lossless : x.lost = [] →
    x.handed ++ x.returning = List.range' 1 x.delivered.length ∧
      session.flow.acked = x.handed.length ∧ session.flow.tally.duplicates = 0

namespace Clocks

section

variable [Scalar α]

theorem of_start {controller : Controller α} {id packetSize : Nat}
    (hFlow : session.flow = .withController id packetSize controller)
    (hStart : session.startedAt = none) : empty.Clocks session where
  growing := .nil
  answered := List.forall_mem_nil _
  limit_eq := hFlow ▸ rfl
  running hStarted := by
    rw [hStart] at hStarted
    cases hStarted
  lossless _ := hFlow ▸ ⟨rfl, rfl, rfl⟩

/-- A loss can only end what held without one. -/
theorem lose (h : x.Clocks session) {underway : List Nat} {seq : Nat} :
    Clocks { x with underway := underway, lost := x.lost ++ [seq] } session :=
  { h with lossless := fun hLost => absurd hLost (by simp) }

/-- The answer to a packet acknowledges no less than those before it. -/
theorem deliver (h : x.Clocks session) (data : x.Conserves session) {p : Packet} {rest : List Nat}
    (hFirst : x.underway = p.seq :: rest) :
    Clocks
      { x with
        delivered := x.delivered ++ [p.seq]
        underway := rest
        returning := x.returning ++ [(session.sink.take p).cumulative] }
      { session with sink := session.sink.take p } := by
  have hMono := data.cumulative_mono p
  constructor
  case growing =>
    rw [← List.append_assoc]
    refine List.pairwise_append.mpr ⟨h.growing, List.pairwise_singleton _ _, ?_⟩
    intro old hOld new hNew
    rw [List.mem_singleton.mp hNew]
    exact Nat.le_trans (h.answered old hOld) hMono
  case answered =>
    rw [← List.append_assoc]
    intro seq hSeq
    rcases List.mem_append.mp hSeq with hOld | hNew
    · exact Nat.le_trans (h.answered seq hOld) hMono
    · exact Nat.le_of_eq (List.mem_singleton.mp hNew)
  case limit_eq => exact h.limit_eq
  case running => exact h.running
  case lossless =>
    intro hLost
    obtain ⟨hReturned, hRest⟩ := h.lossless hLost
    have hNext := (data.deliver hFirst x.returning).cumulative_eq hLost
    refine ⟨?_, hRest⟩
    rw [← List.append_assoc, hReturned, List.length_append, List.length_singleton,
      List.range'_1_concat, show (session.sink.take p).cumulative = _ from hNext]
    simp [Nat.add_comm]

/-- A call that leaves the acknowledged count alone. -/
theorem send (h : x.Clocks session) (next : Session α) (sink : next.sink = session.sink)
    (steady : session.flow.Steady next.flow) {underway : List Nat}
    (running : next.startedAt.isSome = true → next.flow.Running) :
    Clocks { x with underway := underway } next where
  growing := h.growing
  answered := sink ▸ h.answered
  limit_eq := steady.limit_eq.trans h.limit_eq
  running := running
  lossless hLost := by
    obtain ⟨hReturned, hAcked, hDuplicates⟩ := h.lossless hLost
    exact ⟨hReturned, steady.acked_eq.trans hAcked, steady.duplicates_eq.trans hDuplicates⟩

/-- Without a loss, what was sent and is not acknowledged is on its way. -/
theorem inFlight_eq (h : x.Clocks session) (data : x.Conserves session)
    (hLost : x.lost = []) :
    session.flow.nextSeq - session.flow.acked = x.underway.length + x.returning.length := by
  obtain ⟨hReturned, hAcked, _⟩ := h.lossless hLost
  have hSent := data.length_eq
  have hAnswers := congrArg List.length hReturned
  rw [hLost] at hSent
  simp only [List.length_append, List.length_range', List.length_nil] at hSent hAnswers
  omega

end

variable [PowerScalar α]

/-- The sender takes the first acknowledgment. Without a loss it is the one after those it has
taken. -/
theorem hand (h : x.Clocks session) {ack : Packet} {now : Instant} {rest underway : List Nat}
    (hFirst : x.returning = ack.seq :: rest)
    (call : session.flow.onAck ack now = (.ok packets, next.flow))
    (sink : next.sink = session.sink) (startedAt : next.startedAt = session.startedAt) :
    Clocks
      { x with underway := underway, handed := x.handed ++ [ack.seq], returning := rest } next := by
  have hSame : x.handed ++ [ack.seq] ++ rest = x.handed ++ x.returning := by
    rw [hFirst, List.append_assoc, List.singleton_append]
  have hTaken : next.flow.limit = session.flow.limit ∧
      (session.flow.Running → next.flow.Running) := by
    rcases Nat.lt_or_ge session.flow.acked ack.seq with hNew | hOld
    · obtain ⟨_, hLimit, _, hRunning⟩ := Flow.onAck_of_new call hNew
      exact ⟨hLimit, fun _ => hRunning⟩
    · rw [(Flow.onAck_of_old call hOld).2]
      exact ⟨rfl, id⟩
  constructor
  case growing => exact hSame ▸ h.growing
  case answered => exact sink ▸ hSame ▸ h.answered
  case limit_eq => exact hTaken.1.trans h.limit_eq
  case running => exact fun hStarted => hTaken.2 (h.running (startedAt ▸ hStarted))
  case lossless =>
    intro hLost
    obtain ⟨hReturned, hAcked, hDuplicates⟩ := h.lossless hLost
    have hSeq : ack.seq = x.handed.length + 1 := by
      have hAt := congrArg (·[x.handed.length]?) hReturned
      rw [hFirst] at hAt
      simp only [List.getElem?_append_right (Nat.le_refl _), Nat.sub_self,
        List.getElem?_cons_zero] at hAt
      have hRange := List.getElem?_eq_some_iff.mp hAt.symm
      simpa [Nat.add_comm] using hRange.2.symm
    obtain ⟨hNext, _, hCount, _⟩ := Flow.onAck_of_new call (by omega)
    exact ⟨hSame ▸ hReturned, by simpa [hNext] using hSeq, hCount.trans hDuplicates⟩

end Clocks

variable [PowerScalar α]

/-- Everything that can happen to a strand and its session at once. -/
inductive Evolves (x : Strand) (session : Session α) (now : Instant) : Strand → Session α → Prop where
  | rests {next : Session α} (flow : next.flow = session.flow) (sink : next.sink = session.sink)
      (startedAt : next.startedAt = session.startedAt) : Evolves x session now x next
  | loses {before after : List Nat} {seq : Nat} (place : x.underway = before ++ seq :: after) :
      Evolves x session now { x with underway := before ++ after, lost := x.lost ++ [seq] } session
  | starts {packets : List Packet} {flow : Flow α}
      (call : session.flow.sendMany now = (packets, flow)) :
      Evolves x session now { x with underway := x.underway ++ packets.map (·.seq) }
        { session with flow := flow, startedAt := some now }
  | expires {timer : Timer} {packets : List Packet} {flow : Flow α}
      (call : session.flow.onTimer timer now = (.ok packets, flow)) :
      Evolves x session now { x with underway := x.underway ++ packets.map (·.seq) }
        { session with flow := flow }
  | delivers {p : Packet} {rest : List Nat} (first : x.underway = p.seq :: rest) :
      Evolves x session now
        { x with
          delivered := x.delivered ++ [p.seq]
          underway := rest
          returning := x.returning ++ [(session.sink.take p).cumulative] }
        { session with sink := session.sink.take p }
  | hands {ack : Packet} {rest : List Nat} {packets : List Packet} {flow : Flow α}
      (first : x.returning = ack.seq :: rest)
      (call : session.flow.onAck ack now = (.ok packets, flow)) :
      Evolves x session now
        { x with
          underway := x.underway ++ packets.map (·.seq)
          handed := x.handed ++ [ack.seq]
          returning := rest }
        { session with flow := flow }

variable {y : Strand} {now : Instant}

theorem Evolves.conserves (step : x.Evolves session now y next) (h : x.Conserves session) :
    y.Conserves next := by
  cases step with
  | rests flow sink => exact
      { accounted := flow ▸ h.accounted, rising := h.rising, complete := flow ▸ h.complete
        holds := sink ▸ h.holds, first := sink ▸ h.first, acks_eq := sink ▸ h.acks_eq
        discarded_eq := sink ▸ h.discarded_eq }
  | loses place => exact h.lose place
  | @starts packets flow call => exact h.send (.send now) (by simp) _ call rfl
  | @expires timer packets flow call =>
      have hCall : session.flow.after (.timer timer now) = (packets, flow) := by
        rw [Flow.after, call, Flow.returned]
      exact h.send (.timer timer now) (by simp) _ hCall rfl
  | delivers first => exact h.deliver first _
  | @hands ack rest packets flow first call =>
      have hCall : session.flow.after (.ack ack now) = (packets, flow) := by
        rw [Flow.after, call, Flow.returned]
      exact { h.send (.ack ack now) (by simp) { session with flow := flow } hCall rfl with }

theorem Evolves.clocks (step : x.Evolves session now y next) (h : x.Clocks session)
    (data : x.Conserves session) : y.Clocks next := by
  obtain ⟨sent, hAccounted⟩ := data.accounted
  cases step with
  | rests flow sink startedAt =>
      exact
        { growing := h.growing, answered := sink ▸ h.answered, limit_eq := flow ▸ h.limit_eq
          running := flow ▸ startedAt ▸ h.running, lossless := flow ▸ h.lossless }
  | loses => exact h.lose
  | @starts packets flow call =>
      have hSteady := (Flow.departs_sendMany session.flow now).steady
      have hRunning := Flow.running_sendMany hAccounted.acked_le now
      rw [call] at hSteady hRunning
      exact h.send { session with flow := flow, startedAt := some now } rfl hSteady fun _ => hRunning
  | @expires timer packets flow call =>
      have hSteady := Flow.steady_onTimer call
      exact h.send { session with flow := flow } rfl hSteady fun hStarted =>
        hSteady.running hAccounted.acked_le (h.running hStarted)
  | delivers first => exact h.deliver data first
  | hands first call => exact h.hand first call rfl rfl

end Strand
end LoadFeedback
