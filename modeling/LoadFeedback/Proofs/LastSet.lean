import Mathlib.Data.List.Basic

/-! Of calls that each set a value or set none, the last one that sets it decides. -/
namespace LoadFeedback

variable {ε β : Type} {set? : ε → Option β}

/-- The value that was set last, if any event has set one. -/
def lastSet? (set? : ε → Option β) (events : List ε) : Option β :=
  (events.filterMap set?).getLast?

@[simp] theorem lastSet?_nil (set? : ε → Option β) : lastSet? set? [] = none := rfl

/-- What the first event sets counts where no later one sets anything. -/
theorem lastSet?_cons (set? : ε → Option β) (event : ε) (rest : List ε) :
    lastSet? set? (event :: rest) = (lastSet? set? rest).or (set? event) := by
  unfold lastSet?
  cases hSet : set? event with
  | none => rw [List.filterMap_cons_none hSet, Option.or_none]
  | some value =>
      rw [List.filterMap_cons_some hSet, List.getLast?_cons]
      exact Option.or_some.symm

theorem exists_of_lastSet? {events : List ε} {value : β} (h : lastSet? set? events = some value) :
    ∃ event ∈ events, set? event = some value :=
  List.mem_filterMap.mp (List.mem_of_getLast? h)

end LoadFeedback
