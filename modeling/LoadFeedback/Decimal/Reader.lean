import LoadFeedback.Decimal.Rounding

/-!
Numbers in words. A count is a row of digits; a number may have a sign, a point and an exponent, or
be one of the words for what is beyond numbers. Nothing may stand around either.
-/

namespace LoadFeedback.Decimal

def digitValue (c : Char) : Nat := c.toNat - '0'.toNat

def valueOf (ds : List Char) : Nat :=
  ds.foldl (fun n c => 10 * n + digitValue c) 0

/-- A row of at least one digit, and nothing else. -/
def readDigits? (cs : List Char) : Option Nat :=
  if cs.isEmpty || !cs.all Char.isDigit then none else some (valueOf cs)

/-- Takes a sign off the front, which says whether the number is negative. -/
def takeSign : List Char → Bool × List Char
  | '-' :: rest => (true, rest)
  | '+' :: rest => (false, rest)
  | rest => (false, rest)

/-- A count below a bound, perhaps with a plus sign. -/
def readCount? (bound : Nat) (text : String) : Option Nat :=
  let cs := match text.toList with
    | '+' :: rest => rest
    | rest => rest
  match readDigits? cs with
  | some n => if n < bound then some n else none
  | none => none

/-- The exponent behind the digits: nothing, or a letter and a whole number. -/
def readExponent? : List Char → Option Int
  | [] => some 0
  | c :: rest =>
    if c = 'e' ∨ c = 'E' then
      let (negative, ds) := takeSign rest
      (readDigits? ds).map fun n => if negative then -(n : Int) else n
    else none

/-- Digits with a point before the last ones, or none, and an exponent: the value `n · 10 ^ power`.
At least one digit is needed in front of the exponent. -/
def readScientific? (cs : List Char) : Option (Nat × Int) :=
  let whole := cs.takeWhile Char.isDigit
  let rest := cs.dropWhile Char.isDigit
  let (places, rest) := match rest with
    | '.' :: rest => (rest.takeWhile Char.isDigit, rest.dropWhile Char.isDigit)
    | rest => ([], rest)
  if whole.isEmpty && places.isEmpty then none
  else (readExponent? rest).map fun e => (valueOf (whole ++ places), e - places.length)

/-- The double nearest to `n · 10 ^ power`. Every double lies well between `10 ^ (-400)` and
`10 ^ 400`, so beyond these the digits do not matter. -/
def nearestFloat (n : Nat) (power : Int) : Float :=
  if n = 0 then 0.0
  else if 400 < power then 1.0 / 0.0
  else if power + (digits n).length < -400 then 0.0
  else Float.ofScientific n (power < 0) power.natAbs

/-- What a word or a number without a sign stands for. -/
def readMagnitude? (cs : List Char) : Option Float :=
  let word := cs.map Char.toLower
  if word = "inf".toList ∨ word = "infinity".toList then some (1.0 / 0.0)
  else if word = "nan".toList then some (0.0 / 0.0)
  else (readScientific? cs).map fun (n, power) => nearestFloat n power

def readFloat? (text : String) : Option Float :=
  let (negative, cs) := takeSign text.toList
  (readMagnitude? cs).map fun x => if negative then -x else x

end LoadFeedback.Decimal
