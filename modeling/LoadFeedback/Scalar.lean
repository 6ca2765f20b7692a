/-!
The arithmetic in which load factors, windows and rates are computed. Every law of the library is
written over this class, so one definition serves both the machine's binary fractions, where a
comparison with an undefined value fails, and exact numbers, where the order is total.
-/

namespace LoadFeedback

/-- Numbers that can be added, compared and turned into counts. A comparison may fail in both
directions: `x ≤ y` and `y < x` are two tests, not each other's negation. -/
class Scalar (α : Type) extends Add α, Sub α, Mul α, Div α, LT α, LE α, OfScientific α where
  /-- The strict order can be tested. -/
  decidableLT : DecidableLT α
  /-- The order can be tested. -/
  decidableLE : DecidableLE α
  /-- A count as a number. -/
  ofNat : Nat → α
  /-- Whether the value is a number, and not beyond every number. -/
  isFinite : α → Bool
  /-- The whole part of a number, and zero below zero. -/
  floor : α → Nat
  /-- The count nearest to a number, a half going up, and zero below zero. -/
  nearest : α → Nat
  /-- The nearest number of billionths, a half going to the even neighbour, and zero below zero. -/
  billionths : α → Nat

attribute [reducible, instance] Scalar.decidableLT Scalar.decidableLE

/-- Numbers that also have powers and decimal logarithms. -/
class PowerScalar (α : Type) extends Scalar α where
  /-- The first number raised to the second. -/
  pow : α → α → α
  log10 : α → α

namespace Scalar

variable {α : Type} [Scalar α]

/-- The larger of two values; an undefined one gives way to a number. -/
protected def max (x y : α) : α :=
  if y ≤ x then x else if y ≤ y then y else x

/-- The smaller of two values; an undefined one gives way to a number. -/
protected def min (x y : α) : α :=
  if x ≤ y then x else if y ≤ y then y else x

/-- The value moved into the range from `low` to `high`; an undefined value stays undefined. -/
def clamp (low high x : α) : α :=
  if x < low then low else if high < x then high else x

/-- The sum of a list, from the left. -/
def sum (xs : List α) : α :=
  xs.foldl (· + ·) 0.0

end Scalar

end LoadFeedback
