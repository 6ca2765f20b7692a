import LoadFeedback.Binary64
import LoadFeedback.Decimal.Rounding

/-!
Texts of doubles. A text is fixed by how the digits are chosen and by how they are laid out:
with a fixed number of places, with a fixed number of significant digits and an exponent, or with
the fewest digits that read back, written without an exponent or with one where it is far from one.
-/

namespace LoadFeedback.Decimal

/-- The value `mantissa · 2 ^ exponent` as a quotient of counts. -/
def quotient (mantissa : Nat) (exponent : Int) : Nat × Nat :=
  (mantissa * Nat.pow 2 exponent.toNat, Nat.pow 2 (-exponent).toNat)

/-- The sign of a value in front of its digits. -/
def signed (negative : Bool) (text : String) : String :=
  if negative then "-" ++ text else text

/-- A text for every double: the one given for numbers, and fixed words for the rest. -/
def textWith (finite : Nat → Int → String) (x : Float) : String :=
  match Binary64.ofFloat x with
  | .undefined => "NaN"
  | .infinite negative => signed negative "inf"
  | .finite negative mantissa exponent => signed negative (finite mantissa exponent)

/-- A count of units of `10 ^ (-places)`, with a point before the last `places` digits. -/
def withPoint (places units : Nat) : String :=
  let ds := digitsTo (places + 1) units
  let whole := String.ofList (ds.take (ds.length - places))
  if places = 0 then whole
  else whole ++ "." ++ String.ofList (ds.drop (ds.length - places))

/-- A number with a fixed number of places; a half goes to the even neighbour. -/
def fixed (places : Nat) : Float → String :=
  textWith fun mantissa exponent =>
    let (num, den) := quotient mantissa exponent
    withPoint places (roundHalfEven (num * Nat.pow 10 places) den)

/-- The power of ten by which a quotient is multiplied before it is rounded to a count. -/
def scaled (num den : Nat) (power : Int) : Nat :=
  roundHalfEven (num * Nat.pow 10 power.toNat) (den * Nat.pow 10 (-power).toNat)

/-- Significant digits of a positive quotient and the exponent of the first one. A rounding that
carries into one digit more moves the exponent. -/
def significant (count num den : Nat) : Nat × Int :=
  let k := magnitude num den
  let n := scaled num den ((count : Int) - 1 - k)
  if n < Nat.pow 10 count then (n, k) else (n / 10, k + 1)

/-- A number with a fixed number of significant digits, one of them before the point, and an
exponent without a plus sign. -/
def scientific (count : Nat) : Float → String :=
  textWith fun mantissa exponent =>
    let (num, den) := quotient mantissa exponent
    let (n, k) := if num = 0 then (0, 0) else significant count num den
    withPoint (count - 1) n ++ "e" ++ toString k

end LoadFeedback.Decimal
