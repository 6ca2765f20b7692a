import LoadFeedback.Scalar

/-!
Statistics of a list of samples. Each has no value where it has no meaning: there is no mean of
nothing, and no deviation of a single sample.
-/

namespace LoadFeedback.Statistics

variable {α : Type} [Scalar α]

def least? : List α → Option α
  | [] => none
  | x :: rest => some (rest.foldl (fun m y => if y < m then y else m) x)

def greatest? : List α → Option α
  | [] => none
  | x :: rest => some (rest.foldl (fun m y => if m < y then y else m) x)

/-- A running mean: how many samples it has, and their mean. -/
def meanStep (m : Nat × α) (x : α) : Nat × α :=
  (m.1 + 1, m.2 + (x - m.2) / Scalar.ofNat (m.1 + 1))

/-- The mean, taken as a running mean. -/
def mean? (xs : List α) : Option α :=
  if xs.isEmpty then none else some (xs.foldl meanStep (0, 0.0)).2

/-- A running sum of squared deviations: how many samples it has, their sum, and the sum of squared
deviations from their mean. -/
def deviationStep (d : Nat × α × α) (x : α) : Nat × α × α :=
  let n : α := Scalar.ofNat (d.1 + 1)
  let total := d.2.1 + x
  let gap := n * x - total
  (d.1 + 1, total, d.2.2 + gap * gap / (n * (n - 1.0)))

/-- The variance of the whole, estimated from a sample of it. -/
def variance? : List α → Option α
  | x :: y :: rest =>
    let d := (y :: rest).foldl deviationStep (1, x, 0.0)
    some (d.2.2 / (Scalar.ofNat d.1 - 1.0))
  | _ => none

def sorted (xs : List α) : List α :=
  xs.mergeSort fun x y => x ≤ y

/-- The middle sample, or half the sum of the two in the middle. -/
def median? (xs : List α) : Option α :=
  let ys := sorted xs
  let n := ys.length
  match ys[n / 2]?, ys[n / 2 - 1]? with
  | some upper, some lower => some (if n % 2 = 1 then upper else (lower + upper) / 2.0)
  | _, _ => none

/-- The sample below which so many hundredths of the samples lie, between two samples where it falls
between them. -/
def percentile? (percent : Nat) (xs : List α) : Option α :=
  let ys := sorted xs
  let n := ys.length
  let rank : α := (Scalar.ofNat n + 1.0 / 3.0) * (Scalar.ofNat percent / 100.0) + 1.0 / 3.0
  let whole := Scalar.floor rank
  if whole = 0 then ys.head?
  else if n ≤ whole then ys.getLast?
  else
    match ys[whole - 1]?, ys[whole]? with
    | some lower, some upper => some (lower + (rank - Scalar.ofNat whole) * (upper - lower))
    | _, _ => none

end LoadFeedback.Statistics
