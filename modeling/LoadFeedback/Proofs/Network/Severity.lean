import LoadFeedback.Proofs.Link.Departures
import LoadFeedback.Proofs.Receiver.Sink

/-! What a packet brings to its receiver over several links. Published values change while packets
wait, so what counts is what each link publishes when the packet leaves it, in whatever order links,
timers and other traffic take their turns. -/
namespace LoadFeedback

variable {κ α : Type} [FifoQueue κ]

/-- A packet went through links one after the other: at each link it is the packet taken at some
place, and the one that departed at this place is what the next link takes. Beside it stands what
each link published at its departure. -/
inductive Traverses : List (Hop κ α) → Packet → List FeedbackField → Packet → Prop where
  | done (p : Packet) : Traverses [] p [] p
  | next {hop : Hop κ α} {hops : List (Hop κ α)} {p q r : Packet} {f : FeedbackField}
      {fs : List FeedbackField} (place : Nat) (taken : hop.taken[place]? = some p)
      (left : hop.left[place]? = some (f, q)) (rest : Traverses hops q fs r) :
      Traverses (hop :: hops) p (f :: fs) r

namespace Packet

theorem foldl_stamped_of_data {p : Packet} (h : p.isData = true) (fs : List FeedbackField) :
    fs.foldl stamped p = p.withFeedback (fs.foldl FeedbackField.severest p.feedback) := by
  induction fs generalizing p with
  | nil => rfl
  | cons f fs ih =>
      rw [List.foldl_cons, ih ((p.isData_stamped f).trans h), stamped_of_data h]
      rfl

theorem foldl_stamped_of_ack {p : Packet} (h : p.isData = false) (fs : List FeedbackField) :
    fs.foldl stamped p = p := by
  induction fs with
  | nil => rfl
  | cons f fs ih => rwa [List.foldl_cons, stamped_of_ack h]

end Packet

namespace Traverses

variable {hops : List (Hop κ α)} {p q : Packet} {fs : List FeedbackField}

omit [FifoQueue κ] in
theorem length_eq (way : Traverses hops p fs q) : fs.length = hops.length := by
  induction way with
  | done p => rfl
  | next place taken left rest ih => simp [ih]

/-- Each link of the way has stamped the packet once. -/
theorem eq_foldl_stamped (way : Traverses hops p fs q) (h : ∀ hop ∈ hops, hop.InOrder) :
    q = fs.foldl Packet.stamped p := by
  induction way with
  | done p => rfl
  | next place taken left rest ih =>
      obtain ⟨hHop, hRest⟩ := List.forall_mem_cons.mp h
      obtain ⟨p', hTaken, hStamp⟩ := hHop.stamped place _ _ left
      cases taken.symm.trans hTaken
      rw [ih hRest, hStamp, List.foldl_cons]

omit [FifoQueue κ] in
theorem published_codes (way : Traverses hops p fs q)
    (h : ∀ hop ∈ hops, ∀ departure ∈ hop.left, departure.1.code? ≠ none) :
    ∀ f ∈ fs, f.code? ≠ none := by
  induction way with
  | done p => exact List.forall_mem_nil _
  | next place taken left rest ih =>
      obtain ⟨hHop, hRest⟩ := List.forall_mem_cons.mp h
      exact List.forall_mem_cons.mpr ⟨hHop _ (List.mem_of_getElem? left), ih hRest⟩

end Traverses

namespace Hop

variable [Scalar α]

/-- Links that take their turns in any order. An event names the place of its link. -/
def run (hops : List (Hop κ α)) (events : List (Nat × LinkEvent α)) : List (Hop κ α) :=
  events.foldl (fun hops event => hops.modify event.1 (·.after event.2)) hops

theorem length_run (hops : List (Hop κ α)) (events : List (Nat × LinkEvent α)) :
    (run hops events).length = hops.length := by
  induction events generalizing hops with
  | nil => rfl
  | cons event rest ih =>
      rw [run, List.foldl_cons, ← run, ih, List.length_modify]

/-- What every event keeps at its link, every run keeps at all links. -/
theorem run_keeps {P : Hop κ α → Prop} (hStep : ∀ hop event, P hop → P (hop.after event))
    (events : List (Nat × LinkEvent α)) (hops : List (Hop κ α)) (h : ∀ hop ∈ hops, P hop) :
    ∀ hop ∈ run hops events, P hop := by
  induction events generalizing hops with
  | nil => exact h
  | cons event rest ih =>
      apply ih
      intro hop hMem
      obtain ⟨i, hAt⟩ := List.mem_iff_getElem?.mp hMem
      rw [List.getElem?_modify] at hAt
      cases hBefore : hops[i]? with
      | none => simp [hBefore] at hAt
      | some before =>
          have hKept := h before (List.mem_of_getElem? hBefore)
          by_cases hPlace : event.1 = i
          · simp only [hBefore, hPlace, ↓reduceIte, Option.map_eq_map, Option.map_some,
              Option.some.injEq] at hAt
            exact hAt ▸ hStep before event.2 hKept
          · simp only [hBefore, hPlace, ↓reduceIte, Option.map_eq_map, Option.map_some,
              Option.some.injEq] at hAt
            exact hAt ▸ hKept

/-- A link that encodes, and has published codes at all departures. -/
def LeavesCodes (h : Hop κ α) : Prop :=
  h.link.meter.PublishesCode ∧ ∀ departure ∈ h.left, departure.1.code? ≠ none

theorem LeavesCodes.after {h : Hop κ α} (k : h.LeavesCodes) (event : LinkEvent α) :
    (h.after event).LeavesCodes := by
  refine ⟨?_, ?_⟩
  · rw [link_after]
    exact MeteredQueue.publishesCode_after k.1 event
  · cases event with
    | enqueue p =>
        simp only [Hop.after]
        split <;> exact k.2
    | dequeue =>
        simp only [Hop.after]
        split
        · intro departure hMem
          rcases List.mem_append.mp hMem with hOld | hNew
          · exact k.2 departure hOld
          · rw [List.mem_singleton.mp hNew]
            exact k.1.2
        · exact k.2
    | arrival | sample | measure | capacity | timer | timeout | reset | close => exact k.2

/-- A link that was built publishes a code from its start, if it encodes. -/
theorem leavesCodes_start {l : MeteredQueue κ α} {queue : κ} {config : LinkConfig α} {now : Instant}
    (built : MeteredQueue.build queue config now = .ok l) (h : l.meter.encode = true) :
    (start l).LeavesCodes := by
  obtain ⟨capacity, _, rfl⟩ := MeteredQueue.build_eq_ok_iff.mp built
  exact ⟨Meter.publishesCode_start h capacity now, List.forall_mem_nil _⟩

theorem inOrder_run (links : List (MeteredQueue κ α)) (events : List (Nat × LinkEvent α)) :
    ∀ hop ∈ run (links.map start) events, hop.InOrder := by
  refine run_keeps (fun _ event h => h.after event) events _ fun hop hMem => ?_
  obtain ⟨l, _, rfl⟩ := List.mem_map.mp hMem
  exact inOrder_start l

theorem leavesCodes_run {links : List (MeteredQueue κ α)}
    (built : ∀ l ∈ links, ∃ queue config now, MeteredQueue.build queue config now = .ok l)
    (h : ∀ l ∈ links, l.meter.encode = true) (events : List (Nat × LinkEvent α)) :
    ∀ hop ∈ run (links.map start) events, ∀ departure ∈ hop.left, departure.1.code? ≠ none := by
  have hRun : ∀ hop ∈ run (links.map start) events, hop.LeavesCodes := by
    refine run_keeps (fun _ event k => k.after event) events _ fun hop hMem => ?_
    obtain ⟨l, hl, rfl⟩ := List.mem_map.mp hMem
    obtain ⟨queue, config, now, hBuilt⟩ := built l hl
    exact leavesCodes_start hBuilt (h l hl)
  exact fun hop hMem => (hRun hop hMem).2

end Hop

variable [Scalar α]

/-- Over any links with queues that keep their order, and with any turns of these links: a packet
changes in its feedback alone, and an acknowledgment not at all. The feedback of a data packet becomes
the maximum of what it brought and what each link published when the packet left it, in whatever
order the links stand, and the receiver echoes this value. Where all links encode, a code stays a
code. -/
theorem feedback_is_most_severe {links : List (MeteredQueue κ α)}
    (built : ∀ l ∈ links, ∃ queue config now, MeteredQueue.build queue config now = .ok l)
    (events : List (Nat × LinkEvent α)) {p q : Packet} {published : List FeedbackField}
    (way : Traverses (Hop.run (links.map Hop.start) events) p published q) :
    published.length = links.length ∧ q = p.withFeedback q.feedback ∧
    (p.isData = false → q = p) ∧
    (p.isData = true →
      (q.feedback ∈ p.feedback :: published ∧ ∀ f ∈ p.feedback :: published, f ≤ q.feedback) ∧
      (∀ others : List FeedbackField, others.Perm published →
        q.feedback = others.foldl FeedbackField.severest p.feedback) ∧
      ∀ (sink : Sink) (now : Instant), sink.isStale q = false →
        ∃ ack, (sink.onData q now).1 = .ok (some ack)) ∧
    (∀ (sink : Sink) (now : Instant) (ack : Packet), (sink.onData q now).1 = .ok (some ack) →
      ack.feedback = q.feedback) ∧
    (p.feedback.code? ≠ none → (∀ l ∈ links, l.meter.encode = true) →
      q.feedback.code? ≠ none) := by
  have hStamps := way.eq_foldl_stamped (Hop.inOrder_run links events)
  have hLength : published.length = links.length := by
    rw [way.length_eq, Hop.length_run, List.length_map]
  have hEcho (sink : Sink) (now : Instant) (ack : Packet)
      (h : (sink.onData q now).1 = .ok (some ack)) : ack.feedback = q.feedback :=
    Sink.feedback_of_onData h
  cases hKind : p.isData with
  | false =>
      have hSame : q = p := hStamps.trans (Packet.foldl_stamped_of_ack hKind published)
      subst hSame
      exact ⟨hLength, rfl, fun _ => rfl, nofun, hEcho, fun hCode _ => hCode⟩
  | true =>
      have hMost := hStamps.trans (Packet.foldl_stamped_of_data hKind published)
      have hFeedback : q.feedback = published.foldl FeedbackField.severest p.feedback :=
        congrArg Packet.feedback hMost
      have hMax := FeedbackField.foldl_severest_mem p.feedback published
      rw [← hFeedback] at hMost hMax
      have hData : q.isData = true := by
        rw [hMost]
        exact hKind
      refine ⟨hLength, hMost, nofun, fun _ => ⟨hMax, fun others hPerm => ?_, ?_⟩, hEcho, ?_⟩
      · rw [hFeedback, FeedbackField.foldl_severest_perm hPerm]
      · intro sink now hFresh
        exact ⟨_, congrArg Prod.fst (Sink.onData_of_data hData hFresh now)⟩
      · intro hCode hEncode
        have hPublished := way.published_codes (Hop.leavesCodes_run built hEncode events)
        have hCodes : ∀ f ∈ p.feedback :: published, f.code? ≠ none :=
          List.forall_mem_cons.mpr ⟨hCode, hPublished⟩
        exact hCodes q.feedback hMax.1

/-- The first link becomes overloaded while the packet waits in it. The second one is idle and cannot
take the code back. -/
theorem overload_survives_idle_link :
    let config : LinkConfig Float := { LinkConfig.standard with capacity := some 1e4 }
    let idle : LinkQueue Float := ⟨.empty 10, .start config 1e4 0⟩
    let p := Packet.data 1 0 1000 0
    let q := p.withFeedback (.ofCode .over)
    let events := [(0, .enqueue p), (0, .timer .loadMeasurement (Span.millis 200)), (0, .dequeue),
      (1, .enqueue q), (1, .dequeue)]
    Traverses (Hop.run [Hop.start idle, Hop.start idle] events) p [.ofCode .over, .ofCode .low] q ∧
      (∀ f ∈ [p.feedback, .ofCode .over, .ofCode .low], f ≤ q.feedback) ∧
      (∀ (sink : Sink) (now : Instant) (ack : Packet), (sink.onData q now).1 = .ok (some ack) →
        ack.feedback = .ofCode .over) ∧
      q.feedback.code? ≠ none := by
  have hValid : { LinkConfig.standard with capacity := some (1e4 : Float) }.validate = .ok 1e4 := by
    rfl
  intro config idle p q events
  have hBuilt : ∀ l ∈ [idle, idle], ∃ queue config now,
      MeteredQueue.build queue config now = .ok l := by
    intro l hl
    obtain rfl : l = idle := by simpa using hl
    exact ⟨.empty 10, config, 0, MeteredQueue.build_eq_ok_iff.mpr ⟨1e4, hValid, rfl⟩⟩
  have hWay : Traverses (Hop.run ([idle, idle].map Hop.start) events) p
      [.ofCode .over, .ofCode .low] q :=
    .next (q := q) 0 (by decide +kernel) (by decide +kernel)
      (.next (q := q) 0 (by decide +kernel) (by decide +kernel) (.done q))
  obtain ⟨_, _, _, hData, hEcho, hCode⟩ := feedback_is_most_severe hBuilt events hWay
  refine ⟨hWay, (hData rfl).1.2, hEcho, hCode (by decide) ?_⟩
  intro l hl
  obtain rfl : l = idle := by simpa using hl
  rfl

end LoadFeedback
