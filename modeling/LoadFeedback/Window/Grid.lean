import LoadFeedback.Scalar

/-!
The windows for which gains are tabulated: seven decades of ninety equal steps, from one packet to
ten million. A window is looked up at the nearest grid window below a hundred packets, and at the
one just below it from there on.
-/

namespace LoadFeedback.Window

variable {α : Type} [Scalar α]

def decadeSize : Nat := 90

def gridSize : Nat := 7 * decadeSize

/-- A number multiplied by ten again and again. -/
def tenfold (x : α) : Nat → α
  | 0 => x
  | n + 1 => tenfold x n * 10.0

def decadeStart (decade : Nat) : α := tenfold 1.0 decade

/-- The step between the windows of a decade. -/
def decadeStep (decade : Nat) : α := tenfold 0.1 decade

/-- The window at a place of the grid. -/
def gridWindow (i : Nat) : α :=
  decadeStart (i / decadeSize) + decadeStep (i / decadeSize) * Scalar.ofNat (i % decadeSize)

/-- The place in the grid at which a window is looked up, before it is held to the grid. -/
def place (window : α) : Nat :=
  let w := Scalar.floor window
  if w < 1 then 0
  else if w < 10 then Scalar.floor (window * 10.0 + 0.5) - 10
  else if w < 100 then 80 + Scalar.floor (window + 0.5)
  else if w < 1000 then 170 + w / 10
  else if w < 10000 then 260 + w / 100
  else if w < 100000 then 350 + w / 1000
  else if w < 1000000 then 440 + w / 10000
  else if w < 10000000 then 530 + w / 100000
  else gridSize - 1

/-- The place in the grid at which a window is looked up. -/
def index (window : α) : Fin gridSize :=
  ⟨min (place window) (gridSize - 1), by
    have : gridSize - 1 < gridSize := by decide
    omega⟩

end LoadFeedback.Window
