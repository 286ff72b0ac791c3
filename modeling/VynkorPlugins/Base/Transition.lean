import Mathlib.Data.List.Induction

/-!
# Runs of a labelled transition system

A run carries its labels, the latest one first, so that what a run has done so far is part of the
statements about its last state.
-/

namespace Transition

variable {σ ℓ : Type*}

/-- The runs from `s₀`: the labels, the latest one first, and the last state. -/
inductive Run (step : σ → ℓ → σ → Prop) (s₀ : σ) : List ℓ → σ → Prop
  | start : Run step s₀ [] s₀
  | step {trace s l s'} : Run step s₀ trace s → step s l s' → Run step s₀ (l :: trace) s'

/-- The steps that meet a condition on the state before them. -/
def Where (cond : σ → ℓ → Prop) (step : σ → ℓ → σ → Prop) (s : σ) (l : ℓ) (s' : σ) : Prop :=
  step s l s' ∧ cond s l

variable {step step' : σ → ℓ → σ → Prop} {s₀ s : σ} {trace : List ℓ}

theorem Run.mono (h : ∀ s l s', step s l s' → step' s l s') (hr : Run step s₀ trace s) :
    Run step' s₀ trace s := by
  induction hr with
  | start => exact .start
  | step _ hl ih => exact ih.step (h _ _ _ hl)

/-- What comes first in a run is a run. -/
theorem Run.earlier {later : List ℓ} (hr : Run step s₀ (later ++ trace) s) :
    ∃ s', Run step s₀ trace s' := by
  induction later generalizing s with
  | nil => exact ⟨s, hr⟩
  | cons l later ih =>
    cases hr with
    | step hr _ => exact ih hr

/-- What holds at the start and is preserved by each step of a run holds at the end of every run. -/
theorem Run.invariant {I : List ℓ → σ → Prop} (hr : Run step s₀ trace s) (hI : I [] s₀)
    (hstep : ∀ trace s l s', I trace s → step s l s' → I (l :: trace) s') : I trace s := by
  induction hr with
  | start => exact hI
  | step _ hl ih => exact hstep _ _ _ _ ih hl

/-- An invariant of the states alone. -/
theorem Run.invariant_state {I : σ → Prop} (hr : Run step s₀ trace s) (hI : I s₀)
    (hstep : ∀ s l s', I s → step s l s' → I s') : I s :=
  hr.invariant (I := fun _ s => I s) hI fun _ s l s' => hstep s l s'

/-- Where a step has one outcome, a run has one last state. -/
theorem Run.unique (hr : Run step s₀ trace s) (hdet : ∀ s l a b, step s l a → step s l b → a = b)
    {s' : σ} (hr' : Run step s₀ trace s') : s = s' := by
  induction hr generalizing s' with
  | start =>
    cases hr'
    rfl
  | step _ hl ih =>
    cases hr' with
    | step hr' hl' =>
      obtain rfl := ih hr'
      exact hdet _ _ _ _ hl hl'

/-- The runs on which what a step keeps holds all along are those whose steps meet the condition
    under which a step keeps it. -/
theorem run_where_iff {I P : σ → Prop} {cond : σ → ℓ → Prop} (hI : I s₀) (hP : P s₀)
    (hstep : ∀ s l s', I s → step s l s' → I s')
    (hcond : ∀ s l s', I s → P s → step s l s' → (P s' ↔ cond s l)) :
    Run (fun s l s' => step s l s' ∧ P s') s₀ trace s ↔ Run (Where cond step) s₀ trace s := by
  constructor
  · intro hr
    have hgeneral : Run (Where cond step) s₀ trace s ∧ I s ∧ P s := by
      induction hr with
      | start => exact ⟨.start, hI, hP⟩
      | step _ hl ih =>
        obtain ⟨hrun, hIs, hPs⟩ := ih
        have hc := (hcond _ _ _ hIs hPs hl.1).mp hl.2
        exact ⟨hrun.step ⟨hl.1, hc⟩, hstep _ _ _ hIs hl.1, hl.2⟩
    exact hgeneral.1
  · intro hr
    have hgeneral : Run (fun s l s' => step s l s' ∧ P s') s₀ trace s ∧ I s ∧ P s := by
      induction hr with
      | start => exact ⟨.start, hI, hP⟩
      | step _ hl ih =>
        obtain ⟨hrun, hIs, hPs⟩ := ih
        have hp := (hcond _ _ _ hIs hPs hl.1).mpr hl.2
        exact ⟨hrun.step ⟨hl.1, hp⟩, hstep _ _ _ hIs hl.1, hp⟩
    exact hgeneral.1

/-! ## Runs that are computed -/

/-- The last state of the run that a step function makes from a list of labels, if none of its steps
    fails or misses the condition. -/
def runWhere (cond : σ → ℓ → Prop) [∀ s l, Decidable (cond s l)] (f : σ → ℓ → Option σ) :
    σ → List ℓ → Option σ
  | s, [] => some s
  | s, l :: ls => if cond s l then (f s l).bind fun s' => runWhere cond f s' ls else none

theorem run_of_runWhere {cond : σ → ℓ → Prop} [∀ s l, Decidable (cond s l)] {f : σ → ℓ → Option σ}
    {ls : List ℓ} (hr : Run (Where cond fun s l s' => f s l = some s') s₀ trace s) {s' : σ}
    (h : runWhere cond f s ls = some s') :
    Run (Where cond fun s l s' => f s l = some s') s₀ (ls.reverse ++ trace) s' := by
  induction ls generalizing s trace with
  | nil =>
    obtain rfl : s = s' := Option.some.inj h
    exact hr
  | cons l ls ih =>
    rw [runWhere] at h
    split_ifs at h with hc
    obtain ⟨s1, hs1, h⟩ := Option.bind_eq_some_iff.mp h
    rw [List.reverse_cons, List.append_assoc]
    exact ih (hr.step ⟨hs1, hc⟩) h

/-- The run that some requests make, each of which `f` answers with a label and the next state. -/
def runOf {α : Type*} (f : σ → α → Option (ℓ × σ)) (s₀ : σ) (requests : List α) :
    Option (List ℓ × σ) :=
  requests.foldlM (fun r a => (f r.2 a).map fun next => (next.1 :: r.1, next.2)) ([], s₀)

theorem run_runOf {α : Type*} {f : σ → α → Option (ℓ × σ)} {requests : List α} {r : List ℓ × σ}
    (h : ∀ s a l s', f s a = some (l, s') → step s l s') (hr : runOf f s₀ requests = some r) :
    Run step s₀ r.1 r.2 := by
  have hgeneral : ∀ (requests : List α) (r₀ : List ℓ × σ), Run step s₀ r₀.1 r₀.2 →
      requests.foldlM (fun r a => (f r.2 a).map fun next => (next.1 :: r.1, next.2)) r₀ = some r →
      Run step s₀ r.1 r.2 := by
    intro requests
    induction requests with
    | nil =>
      rintro r₀ hrun hr
      obtain rfl := Option.some.inj hr
      exact hrun
    | cons a requests ih =>
      rintro r₀ hrun hr
      rw [List.foldlM_cons] at hr
      obtain ⟨r₁, hr₁, hr⟩ := Option.bind_eq_some_iff.mp hr
      obtain ⟨⟨l, s'⟩, hf, rfl⟩ := Option.map_eq_some_iff.mp hr₁
      exact ih _ (hrun.step (h _ _ _ _ hf)) hr
  exact hgeneral requests ([], s₀) .start hr

end Transition
