/-!
Quotients of counts rounded to a count, and the decimal digits of a count. The two roundings differ
only at exact halves.
-/

namespace LoadFeedback.Decimal

/-- The count nearest to `num / den`; a half goes to the even neighbour. -/
def roundHalfEven (num den : Nat) : Nat :=
  let whole := num / den
  let twice := 2 * (num % den)
  if twice < den then whole
  else if den < twice then whole + 1
  else whole + whole % 2

/-- The count nearest to `num / den`; a half goes up. -/
def roundHalfUp (num den : Nat) : Nat :=
  if 2 * (num % den) < den then num / den else num / den + 1

/-- Rounding stays within half a unit of the quotient. -/
theorem two_mul_roundHalfUp_mul_le (num den : Nat) :
    2 * (roundHalfUp num den * den) ≤ 2 * num + den := by
  have parts := Nat.div_add_mod' num den
  unfold roundHalfUp
  split
  · omega
  · rw [Nat.add_mul, Nat.one_mul]
    omega

theorem two_mul_lt_roundHalfUp_mul (num : Nat) {den : Nat} (pos : 0 < den) :
    2 * num < 2 * (roundHalfUp num den * den) + den := by
  have parts := Nat.div_add_mod' num den
  have small := Nat.mod_lt num pos
  unfold roundHalfUp
  split
  · omega
  · rw [Nat.add_mul, Nat.one_mul]
    omega

/-- The decimal digits of a count, the most significant first. -/
def digits (n : Nat) : List Char :=
  Nat.toDigits 10 n

/-- The digits of a count, filled with zeros on the left up to the given number of places. -/
def digitsTo (places n : Nat) : List Char :=
  let ds := digits n
  List.replicate (places - ds.length) '0' ++ ds

/-- The exponent `k` with `10 ^ k ≤ num / den < 10 ^ (k + 1)`, for a positive quotient. -/
def magnitude (num den : Nat) : Int :=
  if den ≤ num then ((digits (num / den)).length : Int) - 1
  else -((digits ((den + num - 1) / num - 1)).length : Int)

end LoadFeedback.Decimal
