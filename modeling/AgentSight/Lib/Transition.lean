import Mathlib.Data.Option.Basic

/-!
# Runs of a guarded transition system

A system is a partial step function `step : σ → α → Option σ`. `Reaches step ok s₀ s` says
that some run from `s₀` ends in `s`, every one of whose steps satisfies the guard `ok` in the
state it is taken from. Results about every run are results about the guard that always
holds; a condition on the steps of a run is another guard. `run` executes a list of actions,
which is how a concrete run is exhibited.
-/

namespace Transition

variable {σ α : Type*} {step : σ → α → Option σ} {ok : σ → α → Prop}

/-- The guard of an unconditional run. -/
def always (_ : σ) (_ : α) : Prop := True

/-- Some run from `s₀` whose steps all satisfy `ok` ends in the state. -/
inductive Reaches (step : σ → α → Option σ) (ok : σ → α → Prop) (s₀ : σ) : σ → Prop
  | refl : Reaches step ok s₀ s₀
  | tail {s s' : σ} {a : α} :
      Reaches step ok s₀ s → ok s a → step s a = some s' → Reaches step ok s₀ s'

/-- **The invariant rule.** What holds of the first state and is preserved by every guarded
step holds of every state reached. -/
theorem Reaches.invariant {I : σ → Prop} {s₀ s : σ} (h : Reaches step ok s₀ s) (init : I s₀)
    (preserved : ∀ s a s', I s → ok s a → step s a = some s' → I s') : I s := by
  induction h with
  | refl => exact init
  | tail _ hok hstep ih => exact preserved _ _ _ ih hok hstep

/-- A weaker guard admits more runs. -/
theorem Reaches.mono {ok' : σ → α → Prop} {s₀ s : σ} (h : Reaches step ok s₀ s)
    (weaker : ∀ s a, ok s a → ok' s a) : Reaches step ok' s₀ s := by
  induction h with
  | refl => exact .refl
  | tail _ hok hstep ih => exact .tail ih (weaker _ _ hok) hstep

section Run

variable (step ok) [∀ s a, Decidable (ok s a)]

/-- Execute the actions in order; `none` when one is not enabled or not admitted. -/
def run (s : σ) : List α → Option σ
  | [] => some s
  | a :: as => if ok s a then (step s a).bind (run · as) else none

variable {step ok}

theorem reaches_of_run {s₀ s s' : σ} {as : List α} (h₀ : Reaches step ok s₀ s)
    (h : run step ok s as = some s') : Reaches step ok s₀ s' := by
  induction as generalizing s with
  | nil =>
    obtain rfl : s = s' := by simpa [run] using h
    exact h₀
  | cons a as ih =>
    simp only [run] at h
    split at h
    · next hok =>
      obtain ⟨t, ht, hrest⟩ := Option.bind_eq_some_iff.mp h
      exact ih (.tail h₀ hok ht) hrest
    · cases h

/-- A decidable property that holds where the execution of `as` ends holds of some state
reached. -/
theorem exists_reaches_of_run {Q : σ → Prop} [DecidablePred Q]
    (step : σ → α → Option σ) (ok : σ → α → Prop) [∀ s a, Decidable (ok s a)] (s₀ : σ)
    (as : List α)
    (h : (run step ok s₀ as).any (fun s => decide (Q s)) = true) :
    ∃ s, Reaches step ok s₀ s ∧ Q s := by
  cases hs : run step ok s₀ as with
  | none => simp [hs] at h
  | some s => exact ⟨s, reaches_of_run .refl hs, by simpa [hs] using h⟩

end Run

instance (s : σ) (a : α) : Decidable (always s a) := inferInstanceAs (Decidable True)

end Transition
