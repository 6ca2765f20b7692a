import LoadFeedback.Decimal.Shortest
import LoadFeedback.Feedback

/-!
What a link knows about its load: what was counted since the interval began, and what the last
interval came to.
-/

namespace LoadFeedback

/-- The load of a link. -/
structure Reading (α : Type) where
  /-- Bytes that arrived in this interval. -/
  load : Nat
  /-- The sum of the queue samples of this interval, in bytes. -/
  queueSum : Nat
  /-- How many queue samples this interval has. -/
  queueSamples : Nat
  /-- The running average of the queue, in bytes. -/
  steadyQueue : α
  /-- The utilisation of the last interval. -/
  utilization : α
  /-- The load factor of the last interval, in percent. -/
  loadFactor : α
  /-- What is published. -/
  feedback : FeedbackField
  /-- Bits per second. -/
  capacity : α
  /-- The utilisation aimed at. -/
  target : α
  /-- How many intervals are over. -/
  intervals : Nat
  deriving DecidableEq, Repr

namespace Reading

/-- A field of an object, in data interchange notation. -/
private def entry (key text : String) : String :=
  "\"" ++ key ++ "\":" ++ text

/-- A number in data interchange notation, which has no word for what is not a number. -/
private def number (x : Float) : String :=
  (Decimal.interchange? x).getD "null"

/-- A reading as an object in data interchange notation. -/
def dump (r : Reading Float) : String :=
  "\x7b" ++ ",".intercalate
    [entry "load" (toString r.load), entry "queue_sum" (toString r.queueSum),
      entry "queue_samples" (toString r.queueSamples), entry "steady_queue" (number r.steadyQueue),
      entry "utilization" (number r.utilization), entry "load_factor" (number r.loadFactor),
      entry "feedback" (toString r.feedback.value.toNat), entry "capacity" (number r.capacity),
      entry "target_utilization" (number r.target), entry "intervals" (toString r.intervals)]
    ++ "\x7d"

def text (r : Reading Float) : String :=
  "util=" ++ Decimal.fixed 4 r.utilization ++ " lf=" ++ Decimal.fixed 2 r.loadFactor
    ++ " feedback=" ++ r.feedback.text ++ " steady_queue=" ++ Decimal.fixed 1 r.steadyQueue

end Reading

end LoadFeedback
