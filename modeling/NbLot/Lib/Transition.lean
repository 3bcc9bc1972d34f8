import Mathlib.Logic.Basic

/-!
# Labelled transition functions

A system is a function `step : σ → α → Option σ`; a label that is not enabled in a
state gives `none`. A property of every run is proved from one step by
`invariant_run`, and with it that the run does not get stuck by `progress_run`.
-/
namespace NbLot.Lib.Transition

variable {σ α : Type}

/-- The state a list of labels leads to. -/
def run (step : σ → α → Option σ) : σ → List α → Option σ
  | s, [] => some s
  | s, a :: as =>
    match step s a with
    | none => none
    | some t => run step t as

/-- Every step of the run meets `ok` in the state it is taken from. -/
def StepsMeet (step : σ → α → Option σ) (ok : σ → α → Prop) : σ → List α → Prop
  | _, [] => True
  | s, a :: as => ok s a ∧
    match step s a with
    | none => True
    | some t => StepsMeet step ok t as

instance decidableStepsMeet (step : σ → α → Option σ) (ok : σ → α → Prop)
    [∀ s a, Decidable (ok s a)] : ∀ s as, Decidable (StepsMeet step ok s as)
  | _, [] => .isTrue trivial
  | s, a :: as =>
    have : Decidable (match step s a with
        | none => True
        | some t => StepsMeet step ok t as) :=
      match step s a with
      | none => .isTrue trivial
      | some t => decidableStepsMeet step ok t as
    inferInstanceAs (Decidable (ok s a ∧ _))

variable {step : σ → α → Option σ} {ok : σ → α → Prop} {inv : σ → Prop}

theorem run_append (s : σ) (as bs : List α) :
    run step s (as ++ bs) = (run step s as).bind fun t => run step t bs := by
  induction as generalizing s with
  | nil => rfl
  | cons a as ih =>
    simp only [List.cons_append, run]
    cases step s a with
    | none => rfl
    | some t => exact ih t

/-- What a closed run ends in is decided by running it. -/
theorem exists_run {P : σ → Prop} [DecidablePred P] {s : σ} {as : List α}
    (h : (run step s as).any (fun t => decide (P t)) = true) : ∃ t, run step s as = some t ∧ P t := by
  obtain ⟨t, hrun, ht⟩ := (Option.any_eq_true _ _).mp h
  exact ⟨t, hrun, of_decide_eq_true ht⟩

theorem exists_of_run {P : σ → Prop} {s : σ} {as : List α} (h : (run step s as).isSome = true)
    (hP : ∀ t, run step s as = some t → P t) : ∃ t, run step s as = some t ∧ P t := by
  obtain ⟨t, hrun⟩ := Option.isSome_iff_exists.mp h
  exact ⟨t, hrun, hP t hrun⟩

/-- A condition on the labels alone is met along every run of labels that meet it. -/
theorem stepsMeet_of_forall {label : α → Prop} (s : σ) (as : List α)
    (h : ∀ a ∈ as, label a) : StepsMeet step (fun _ => label) s as := by
  induction as generalizing s with
  | nil => trivial
  | cons a as ih =>
    rw [List.forall_mem_cons] at h
    refine ⟨h.1, ?_⟩
    cases step s a with
    | none => trivial
    | some t => exact ih t h.2

/-- What one enabled step that meets `ok` preserves holds after every run whose
steps all meet it. -/
theorem invariant_run (hstep : ∀ s a t, inv s → ok s a → step s a = some t → inv t) {s t : σ}
    {as : List α} (hs : inv s) (hok : StepsMeet step ok s as) (hrun : run step s as = some t) :
    inv t := by
  induction as generalizing s with
  | nil =>
    cases hrun
    exact hs
  | cons a as ih =>
    simp only [run] at hrun
    unfold StepsMeet at hok
    cases hnext : step s a with
    | none =>
      rw [hnext] at hrun
      cases hrun
    | some u =>
      rw [hnext] at hrun hok
      exact ih (hstep s a u hs hok.1 hnext) hok.2 hrun

/-- A run in which every step is enabled and preserves the property does not get stuck. -/
theorem progress_run (hstep : ∀ s a, inv s → ok s a → ∃ t, step s a = some t ∧ inv t) (s : σ)
    (as : List α) (hs : inv s) (hok : StepsMeet step ok s as) :
    ∃ t, run step s as = some t ∧ inv t := by
  induction as generalizing s with
  | nil => exact ⟨s, rfl, hs⟩
  | cons a as ih =>
    unfold StepsMeet at hok
    obtain ⟨u, hnext, hu⟩ := hstep s a hs hok.1
    rw [hnext] at hok
    simp only [run, hnext]
    exact ih u hu hok.2

end NbLot.Lib.Transition
