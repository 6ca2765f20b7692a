import LoadFeedback.Scalar

/-!
The utilisation that a link aims at. Faster links can be driven closer to their capacity, so the
target grows with the capacity, in ten bands.
-/

namespace LoadFeedback.Link

variable {α : Type} [Scalar α]

/-- The least capacity of a link, in bits per second. -/
def minCapacity : α := 1e3

/-- The largest capacity of a link, in bits per second. -/
def maxCapacity : α := 1e12

def isSupported (capacity : α) : Bool :=
  minCapacity ≤ capacity && capacity ≤ maxCapacity

/-- The target from which no band is left to gain. -/
def maxTarget : α := 0.999

def minTarget : α := 0.1

/-- The bands: a least capacity and the target from there on. -/
def targetBands : List (α × α) :=
  [(1e3, 0.80), (1e4, 0.84), (1e5, 0.88), (1e6, 0.90), (1e7, 0.92),
   (1e8, 0.94), (1e9, 0.95), (1e10, 0.96), (1e11, 0.97), (1e12, 0.98)]

/-- The utilisation that a link of the given capacity aims at: the target of the last band that it
reaches, or of the first band. -/
def target (capacity : α) : α :=
  let reached := targetBands.takeWhile fun band => band.1 ≤ capacity
  Scalar.clamp minTarget maxTarget ((reached.getLast?.map (·.2)).getD 0.80)

/-- A tenth of the way from a target to the largest one. -/
def targetStep (target : α) : α :=
  (maxTarget - target) / 10.0

end LoadFeedback.Link
