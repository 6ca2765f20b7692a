import LoadFeedback.Scalar
import LoadFeedback.Decimal.Rounding

/-!
Doubles as the numbers they stand for: `m · 2^q` with a whole mantissa `m`, an infinity, or no
number at all. Whole parts and nearest counts are read off that value exactly.
-/

namespace LoadFeedback

/-- What a double stands for. -/
inductive Binary64 where
  | undefined
  /-- Beyond every number, on one side. -/
  | infinite (negative : Bool)
  /-- The number `mantissa · 2 ^ exponent`, with its sign; zero has both signs. -/
  | finite (negative : Bool) (mantissa : Nat) (exponent : Int)
  deriving DecidableEq, Repr

namespace Binary64

/-- Reads the sign, the eleven bits of the exponent and the fifty-two of the fraction. -/
def ofBits (bits : Nat) : Binary64 :=
  let negative := bits / Nat.pow 2 63 % 2 = 1
  let biased : Nat := bits / Nat.pow 2 52 % 2048
  let fraction := bits % Nat.pow 2 52
  if biased = 2047 then
    if fraction = 0 then .infinite negative else .undefined
  else if biased = 0 then .finite negative fraction (-1074)
  else .finite negative (Nat.pow 2 52 + fraction) ((biased : Int) - 1075)

def ofFloat (x : Float) : Binary64 :=
  ofBits x.toBits.toNat

/-- The largest count that a whole part or a nearest count can give. -/
def maxCount : Nat := UInt64.size - 1

/-- The count nearest to `unit` times the value, with `round` for quotients that are not whole. -/
def count (round : Nat → Nat → Nat) (unit : Nat) : Binary64 → Nat
  | .undefined => 0
  | .infinite negative => if negative then 0 else maxCount
  | .finite negative mantissa exponent =>
    if negative then 0
    else min maxCount
      (round (mantissa * unit * Nat.pow 2 exponent.toNat) (Nat.pow 2 (-exponent).toNat))

end Binary64

instance : Scalar Float where
  decidableLT := inferInstance
  decidableLE := inferInstance
  ofNat := Float.ofNat
  isFinite := Float.isFinite
  floor x := x.toUInt64.toNat
  nearest x := (Binary64.ofFloat x).count Decimal.roundHalfUp 1
  billionths x := (Binary64.ofFloat x).count Decimal.roundHalfEven 1000000000

instance : PowerScalar Float where
  pow := Float.pow
  log10 := Float.log10

end LoadFeedback
