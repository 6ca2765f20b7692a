import LoadFeedback.Simulation.CommandLine

/-! A command line can only ask for counts that a machine word holds. -/
namespace LoadFeedback

/-- The times of a simulation are counts of machine words. -/
structure Options.InWords {α : Type} (o : Options α) : Prop where
  measurementInterval : o.measurementInterval < UInt64.size
  duration : o.duration < UInt64.size

theorem Options.inWords_standard {α : Type} [Scalar α] : (standard : Options α).InWords where
  measurementInterval := show 200 < UInt64.size by decide
  duration := show 30 < UInt64.size by decide

theorem Decimal.lt_of_readCount? {bound n : Nat} {text : String}
    (h : readCount? bound text = some n) : n < bound := by
  unfold readCount? at h
  dsimp only at h
  generalize readDigits? _ = digits at h
  cases digits with
  | none => cases h
  | some m =>
      obtain ⟨hBound, hSame⟩ := Option.ite_none_right_eq_some.mp h
      cases hSame
      exact hBound

namespace CommandLine

variable {o p : Options Float}

theorem inWords_apply {s : Setting} (h : o.InWords) (applied : s.apply? o = some p) :
    p.InWords := by
  unfold Setting.apply? at applied
  cases hName : s.name <;> simp only [hName] at applied
  case measurementInterval =>
    obtain ⟨n, hCount, rfl⟩ := Option.map_eq_some_iff.mp applied
    exact ⟨Decimal.lt_of_readCount? hCount, h.duration⟩
  case duration =>
    obtain ⟨n, hCount, rfl⟩ := Option.map_eq_some_iff.mp applied
    exact ⟨h.measurementInterval, Decimal.lt_of_readCount? hCount⟩
  case rttSpread | startSpread =>
    obtain ⟨n, _, hNone⟩ := Option.bind_eq_some_iff.mp applied
    obtain ⟨_, hSame⟩ := Option.ite_none_right_eq_some.mp hNone
    cases hSame
    exact h
  case smoothing | disablePacing | aiLimiter | logFile =>
    cases applied
    exact ⟨h.measurementInterval, h.duration⟩
  all_goals
    obtain ⟨_, _, rfl⟩ := Option.map_eq_some_iff.mp applied
    exact ⟨h.measurementInterval, h.duration⟩

theorem inWords_foldlM {settings : List Setting} (h : o.InWords)
    (applied : settings.foldlM (fun o s => s.apply? o) o = some p) : p.InWords := by
  induction settings generalizing o with
  | nil =>
      cases applied
      exact h
  | cons s rest ih =>
      obtain ⟨next, hNext, hRest⟩ := Option.bind_eq_some_iff.mp applied
      exact ih (inWords_apply h hNext) hRest

/-- The settings of a command line that is accepted. -/
theorem inWords_of_parse {arguments : List String} (accepted : parse? arguments = some o) :
    o.InWords := by
  unfold parse? at accepted
  split at accepted
  · obtain ⟨_, hApplied⟩ := Option.ite_none_right_eq_some.mp accepted
    exact inWords_foldlM Options.inWords_standard hApplied
  · cases accepted

end CommandLine

end LoadFeedback
