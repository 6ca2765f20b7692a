import LoadFeedback.Scalar

/-!
How evenly a link is shared.
-/

namespace LoadFeedback

variable {α : Type} [Scalar α]

/-- Jain's index of a list of rates: the square of their sum over their number times the sum of
their squares. It is one when all rates are equal, also when there are none. -/
def fairnessIndex (rates : List α) : α :=
  let total := Scalar.sum rates
  let squares := Scalar.sum (rates.map fun r => r * r)
  if squares ≤ 0.0 ∧ 0.0 ≤ squares then 1.0
  else total * total / (Scalar.ofNat rates.length * squares)

end LoadFeedback
