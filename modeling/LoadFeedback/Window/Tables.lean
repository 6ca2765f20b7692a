import LoadFeedback.Window.Grid

/-!
Gains that shrink as the window grows. Both tables are given at the start of each decade and filled
in between: the bound of the multiplicative increase linearly in the logarithm of the window, the
bound of the additive increase by a power law.
-/

namespace LoadFeedback.Window

variable {α : Type}

/-- The bound of the multiplicative increase at the start of each decade. -/
def increaseAnchors [Scalar α] : Vector α 8 :=
  #v[1.0, 0.5, 0.2, 0.1, 0.064, 0.044, 0.032, 0.024]

/-- The bound of the additive increase at the start of each decade. -/
def limiterAnchors [Scalar α] : Vector α 8 :=
  #v[0.1, 0.06, 0.04, 0.02, 0.01, 0.006, 0.004, 0.002]

/-- The decade of a place in the grid. -/
def decadeOf (i : Fin gridSize) : Fin 7 :=
  ⟨i.val / decadeSize, by
    have : i.val < 7 * decadeSize := i.isLt
    exact Nat.div_lt_of_lt_mul (by omega)⟩

/-- The anchors on both sides of a place in the grid. -/
def anchorsAt (anchors : Vector α 8) (i : Fin gridSize) : α × α :=
  let d := decadeOf i
  (anchors[d.val], anchors[d.val + 1])

variable [PowerScalar α]

/-- Between two anchors, linear in the decimal logarithm of the window. -/
def logEntry (anchors : Vector α 8) (i : Fin gridSize) : α :=
  let (low, high) := anchorsAt anchors i
  low - (low - high) *
    (PowerScalar.log10 (gridWindow i.val : α) - Scalar.ofNat (decadeOf i).val)

/-- Between two anchors, by the power law through both. -/
def powerEntry (anchors : Vector α 8) (i : Fin gridSize) : α :=
  let (low, high) := anchorsAt anchors i
  let slope := PowerScalar.log10 (low / high)
  low * PowerScalar.pow (gridWindow i.val / decadeStart (decadeOf i).val) (0.0 - slope)

end LoadFeedback.Window

namespace LoadFeedback

/-- The gains at every grid window. -/
structure WindowTables (α : Type) where
  increase : Vector α Window.gridSize
  limiter : Vector α Window.gridSize

namespace WindowTables

variable {α : Type}

def standard [PowerScalar α] : WindowTables α where
  increase := .ofFn (Window.logEntry Window.increaseAnchors)
  limiter := .ofFn (Window.powerEntry Window.limiterAnchors)

variable [Scalar α]

/-- The bound of the multiplicative increase at a window. -/
def increaseAt (t : WindowTables α) (window : α) : α :=
  t.increase[Window.index window]

/-- The bound of the additive increase at a window. -/
def limiterAt (t : WindowTables α) (window : α) : α :=
  t.limiter[Window.index window]

end WindowTables

end LoadFeedback
