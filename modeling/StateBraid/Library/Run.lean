import Mathlib.Tactic

/-!
# Runs of a deterministic machine

A machine takes inputs one at a time. `Run step allowed s t` says that some finite
sequence of inputs, each allowed in the state it is given in, leads from `s` to
`t`. Which inputs are allowed may depend on the state, so that a restriction on an
environment is a parameter of the run and not of the machine.
-/
namespace Library

variable {σ ι : Type}

/-- A finite run whose inputs were all allowed when they were given. -/
inductive Run (step : σ → ι → σ) (allowed : σ → ι → Prop) (s : σ) : σ → Prop
  | start : Run step allowed s s
  | next {t : σ} {i : ι} (hrun : Run step allowed s t) (hi : allowed t i) :
      Run step allowed s (step t i)

namespace Run

variable {step : σ → ι → σ} {allowed : σ → ι → Prop} {s t : σ}

/-- What holds at the start and is kept by every allowed step holds after every run. -/
theorem invariant {I : σ → Prop} (hstart : I s)
    (hstep : ∀ t i, I t → allowed t i → I (step t i)) (h : Run step allowed s t) : I t := by
  induction h with
  | start => exact hstart
  | next _ hi ih => exact hstep _ _ ih hi

/-- A run that was allowed less is a run. -/
theorem mono {allowed' : σ → ι → Prop} (hallowed : ∀ t i, allowed t i → allowed' t i)
    (h : Run step allowed s t) : Run step allowed' s t := by
  induction h with
  | start => exact .start
  | next _ hi ih => exact .next ih (hallowed _ _ hi)

/-- A machine that does what another one does and writes down more has the same runs. -/
theorem project_iff {σ' : Type} {step' : σ' → ι → σ'} {allowed' : σ' → ι → Prop} {f : σ → σ'}
    (hf : ∀ s i, f (step s i) = step' (f s) i) {t' : σ'} :
    Run step' allowed' (f s) t' ↔ ∃ t, Run step (fun t => allowed' (f t)) s t ∧ f t = t' := by
  constructor
  · intro h
    induction h with
    | start => exact ⟨s, .start, rfl⟩
    | next _ hi ih =>
      obtain ⟨t, hrun, rfl⟩ := ih
      exact ⟨_, .next hrun hi, hf t _⟩
  · rintro ⟨t, h, rfl⟩
    induction h with
    | start => exact .start
    | next _ hi ih => exact hf _ _ ▸ .next ih hi

/-- Feeding a list of inputs to a machine that allows all of them. -/
theorem foldl_invariant {I : σ → Prop} (hstep : ∀ t i, I t → I (step t i)) :
    ∀ (inputs : List ι) (s : σ), I s → I (inputs.foldl step s)
  | [], _, hs => hs
  | i :: inputs, s, hs => foldl_invariant hstep inputs (step s i) (hstep s i hs)

/-- The states in which a list of inputs is given, each with its input. -/
def stages (step : σ → ι → σ) : σ → List ι → List (σ × ι)
  | _, [] => []
  | s, i :: inputs => (s, i) :: stages step (step s i) inputs

/-- A measure that every step moves by what it is worth is moved by a list of inputs by the
sum of their worths. -/
theorem foldl_measure {M : Type*} [AddMonoid M] {I : σ → Prop} {m : σ → M}
    {w : σ × ι → M} (hkeep : ∀ t i, I t → I (step t i))
    (hworth : ∀ t i, I t → m (step t i) = m t + w (t, i)) :
    ∀ (inputs : List ι) (s : σ), I s →
      m (inputs.foldl step s) = m s + ((stages step s inputs).map w).sum
  | [], s, _ => by simp [stages]
  | i :: inputs, s, hs => by
    rw [List.foldl_cons, foldl_measure hkeep hworth inputs (step s i) (hkeep s i hs), hworth s i hs,
      stages, List.map_cons, List.sum_cons, add_assoc]

end Run

end Library
