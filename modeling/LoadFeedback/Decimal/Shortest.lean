import LoadFeedback.Decimal.Layout

/-!
The fewest decimal digits that read back as the same double. The reals that round to a double form
an interval around it, with both ends when its mantissa is even. On the grid of one digit, two
digits and so on, the two neighbours of the value are tested against that interval; the first grid
with a hit gives the digits.
-/

namespace LoadFeedback.Decimal

/-- Which of two equally near decimals is written. -/
inductive Tie where
  | up
  /-- The one with an even last digit. -/
  | even
  deriving DecidableEq, Repr

/-- The reals that round to a double, in quarters of its unit: `low ≤ 4 · value / unit ≤ high`,
where an end belongs to the interval when `closed`. Below a power of two the unit is half as
large. -/
structure ReadBack where
  /-- The lower end, in quarters of the unit. -/
  low : Nat
  /-- The upper end, in quarters of the unit. -/
  high : Nat
  /-- Whether the ends read back as the double. -/
  closed : Bool
  deriving DecidableEq, Repr

/-- The interval of a double with the given mantissa and exponent. -/
def ReadBack.of (mantissa : Nat) (exponent : Int) : ReadBack where
  low := 4 * mantissa - (if mantissa = Nat.pow 2 52 ∧ -1074 < exponent then 1 else 2)
  high := 4 * mantissa + 2
  closed := mantissa % 2 == 0

/-- Whether a value, given in quarters of the unit as a quotient, lies in the interval. -/
def ReadBack.holds (r : ReadBack) (num den : Nat) : Bool :=
  if r.closed then r.low * den ≤ num && num ≤ r.high * den
  else r.low * den < num && num < r.high * den

/-- The digits on the grid `10 ^ power` that read back, if one of the value's two neighbours does.
Of two that do, the nearer one is taken. -/
def onGrid? (tie : Tie) (mantissa : Nat) (exponent power : Int) : Option Nat :=
  let (num, den) := quotient mantissa exponent
  let num := num * Nat.pow 10 (-power).toNat
  let den := den * Nat.pow 10 power.toNat
  let below := num / den
  let interval := ReadBack.of mantissa exponent
  -- `k` grid steps are `k · 10 ^ power / 2 ^ (exponent - 2)` quarters of the unit.
  let holds (k : Nat) : Bool :=
    interval.holds (k * Nat.pow 10 power.toNat * Nat.pow 2 (2 - exponent).toNat)
      (Nat.pow 10 (-power).toNat * Nat.pow 2 (exponent - 2).toNat)
  match holds below, holds (below + 1) with
  | false, false => none
  | true, false => some below
  | false, true => some (below + 1)
  | true, true =>
    let twice := 2 * (num % den)
    if twice < den then some below
    else if den < twice then some (below + 1)
    else match tie with
      | .up => some (below + 1)
      | .even => some (below + below % 2)

/-- Digits without zeros at the end, and the power of ten they count. -/
def trimZeros : Nat → Nat → Int → Nat × Int
  | 0, n, power => (n, power)
  | fuel + 1, n, power =>
    if n % 10 = 0 then trimZeros fuel (n / 10) (power + 1) else (n, power)

/-- Tries the grids of `count`, `count + 1`, … digits; with seventeen digits one always reads
back. -/
def searchGrids (tie : Tie) (mantissa : Nat) (exponent top : Int) : Nat → Nat → Nat × Int
  | 0, _ => (0, 0)
  | fuel + 1, count =>
    let power := top + 1 - (count : Int)
    match onGrid? tie mantissa exponent power with
    | some n => trimZeros 17 n power
    | none => searchGrids tie mantissa exponent top fuel (count + 1)

/-- The fewest digits `n` and the power `p` such that `n · 10 ^ p` reads back as a positive
double. -/
def shortest (tie : Tie) (mantissa : Nat) (exponent : Int) : Nat × Int :=
  let (num, den) := quotient mantissa exponent
  searchGrids tie mantissa exponent (magnitude num den) 17 1

/-- The number `n · 10 ^ power`, written without an exponent and without a needless point. -/
def positional (n : Nat) (power : Int) : String :=
  if 0 ≤ power then String.ofList (digits n) ++ String.ofList (List.replicate power.toNat '0')
  else withPoint (-power).toNat n

/-- A number in the fewest digits, never with an exponent. -/
def plain : Float → String :=
  textWith fun mantissa exponent =>
    if mantissa = 0 then "0"
    else
      let (n, power) := shortest .up mantissa exponent
      positional n power

/-- The digits of a count with a point after the first, if there are more. -/
def leadingPoint (n : Nat) : String :=
  withPoint ((digits n).length - 1) n

/-- A number as data interchange formats write it: in the fewest digits, with at least one place
from `10 ^ (-5)` up to `10 ^ 16`, and beyond with an exponent and its sign. What is not a number has
no text. -/
def interchange? (x : Float) : Option String :=
  match Binary64.ofFloat x with
  | .undefined => none
  | .infinite _ => none
  | .finite negative mantissa exponent =>
    if mantissa = 0 then some (signed negative "0.0")
    else
      let (n, power) := shortest .even mantissa exponent
      let first := power + ((digits n).length : Int) - 1
      some <| signed negative <|
        if -5 ≤ first ∧ first < 16 then
          if 0 ≤ power then positional n power ++ ".0" else positional n power
        else leadingPoint n ++ "e" ++ (if first < 0 then "" else "+") ++ toString first

end LoadFeedback.Decimal
