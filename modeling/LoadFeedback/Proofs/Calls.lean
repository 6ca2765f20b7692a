import LoadFeedback.Time

/-! A container under a run of calls: what is left of it and what is answered, and what comes out of one that
is emptied. -/
namespace LoadFeedback

variable {σ τ β γ : Type}

/-- What is taken out, and what is left then. Where nothing comes out, nothing has changed. -/
def taken (s : σ) : Option (β × σ) → Option β × σ
  | some (x, rest) => (some x, rest)
  | none => (none, s)

namespace Calls

/-- What a run of calls leaves, the first one first. -/
def run (call : σ → γ → β × σ) (s : σ) (calls : List γ) : σ := calls.foldl (fun s c => (call s c).2) s

/-- What is answered at each of the calls. -/
def answers (call : σ → γ → β × σ) : σ → List γ → List β
  | _, [] => []
  | s, c :: rest => (call s c).1 :: answers call (call s c).2 rest

variable {call : σ → γ → β × σ} {other : τ → γ → β × τ}

@[simp] theorem run_nil (s : σ) : run call s [] = s := rfl

@[simp] theorem run_cons (s : σ) (c : γ) (rest : List γ) :
    run call s (c :: rest) = run call (call s c).2 rest := rfl

theorem run_preserves {P : σ → Prop} (step : ∀ s c, P s → P (call s c).2) {s : σ} (h : P s)
    (calls : List γ) : P (run call s calls) := by
  induction calls generalizing s with
  | nil => exact h
  | cons c rest ih => exact ih (step s c h)

/-- What answers every single call alike answers every run alike. -/
theorem run_simulates {R : σ → τ → Prop}
    (step : ∀ s t c, R s t → (call s c).1 = (other t c).1 ∧ R (call s c).2 (other t c).2)
    {s : σ} {t : τ} (h : R s t) (calls : List γ) :
    answers call s calls = answers other t calls ∧ R (run call s calls) (run other t calls) := by
  induction calls generalizing s t with
  | nil => exact ⟨rfl, h⟩
  | cons c rest ih =>
      obtain ⟨hAnswer, hNext⟩ := step s t c h
      obtain ⟨hAnswers, hLast⟩ := ih hNext
      exact ⟨by rw [answers, answers, hAnswer, hAnswers], hLast⟩

end Calls

variable {take? : σ → Option (β × σ)}

/-- These things come out in this order, and then none does. -/
inductive Drains (take? : σ → Option (β × σ)) : σ → List β → σ → Prop where
  | done {s : σ} (none : take? s = none) : Drains take? s [] s
  | next {s t last : σ} {x : β} {xs : List β} (first : take? s = some (x, t))
      (rest : Drains take? t xs last) : Drains take? s (x :: xs) last

namespace Drains

variable {s last other : σ} {xs ys : List β}

theorem unique (h : Drains take? s xs last) (k : Drains take? s ys other) : xs = ys ∧ last = other := by
  induction h generalizing ys with
  | done none =>
      cases k with
      | done => exact ⟨rfl, rfl⟩
      | next first => cases none.symm.trans first
  | next first rest ih =>
      cases k with
      | done none => cases none.symm.trans first
      | next second others =>
          cases first.symm.trans second
          obtain ⟨rfl, rfl⟩ := ih others
          exact ⟨rfl, rfl⟩

/-- It ends where each step leaves less behind. -/
theorem exists_of_shrinks (size : σ → Nat)
    (shrinks : ∀ s x t, take? s = some (x, t) → size t < size s) (s : σ) :
    ∃ xs last, Drains take? s xs last := by
  induction hSize : size s using Nat.strongRecOn generalizing s with
  | ind n ih =>
      cases hFirst : take? s with
      | none => exact ⟨[], s, .done hFirst⟩
      | some out =>
          obtain ⟨x, t⟩ := out
          obtain ⟨xs, last, hRest⟩ := ih (size t) (hSize ▸ shrinks s x t hFirst) t rfl
          exact ⟨x :: xs, last, .next hFirst hRest⟩

end Drains
end LoadFeedback
