import Mathlib.Data.List.Basic

/-!
# Keyed change logs

A change sets the value at a key or removes it. Replaying a log from a table gives at each
key the last change the log has for it. For a log that gives each key one value, the
replayed table is the log read as a relation.
-/

namespace ChangeLog

variable {κ ν : Type*} [DecidableEq κ]

/-- A key with its new value, or none when the key is removed. -/
abbrev Change (κ ν : Type*) := κ × Option ν

def apply (table : κ → Option ν) (c : Change κ ν) : κ → Option ν := Function.update table c.1 c.2

def replay (table : κ → Option ν) (log : List (Change κ ν)) : κ → Option ν :=
  log.foldl apply table

variable {table : κ → Option ν} {log : List (Change κ ν)} {k : κ}

@[simp] theorem replay_nil : replay table [] = table := rfl

theorem replay_cons (c : Change κ ν) : replay table (c :: log) = replay (apply table c) log := rfl

/-- A key the log does not mention keeps its value. -/
theorem replay_of_not_mem (h : ∀ c ∈ log, c.1 ≠ k) : replay table log k = table k := by
  induction log generalizing table with
  | nil => rfl
  | cons c log ih =>
    rw [replay_cons, ih fun c' hc' => h c' (List.mem_cons_of_mem _ hc')]
    exact Function.update_of_ne (h c List.mem_cons_self).symm _ _

/-- A key to which every change of the log gives one value has that value. -/
theorem replay_of_unique {o : Option ν} (hmem : (k, o) ∈ log)
    (hunique : ∀ o', (k, o') ∈ log → o' = o) : replay table log k = o := by
  induction log generalizing table with
  | nil => cases hmem
  | cons c log ih =>
    rw [replay_cons]
    by_cases hrest : ∃ o', (k, o') ∈ log
    · obtain ⟨o', ho'⟩ := hrest
      obtain rfl := hunique o' (List.mem_cons_of_mem _ ho')
      exact ih ho' fun o'' ho'' => hunique o'' (List.mem_cons_of_mem _ ho'')
    · -- this is the last change for the key
      push Not at hrest
      rw [replay_of_not_mem fun c' hc' hk => hrest c'.2 (hk ▸ hc')]
      rcases List.mem_cons.mp hmem with rfl | hmem
      · exact Function.update_self ..
      · exact absurd hmem (hrest o)

/-- A log that gives each of its keys one value, read as a relation. -/
theorem replay_empty_eq_some_iff {v : ν}
    (hunique : ∀ k o o', (k, o) ∈ log → (k, o') ∈ log → o = o') :
    replay (fun _ => none) log k = some v ↔ (k, some v) ∈ log := by
  constructor
  · intro h
    by_cases hk : ∃ o, (k, o) ∈ log
    · obtain ⟨o, ho⟩ := hk
      rw [replay_of_unique ho fun o' ho' => hunique k o' o ho' ho] at h
      rwa [← h]
    · push Not at hk
      rw [replay_of_not_mem fun c hc heq => hk c.2 (heq ▸ hc)] at h
      cases h
  · exact fun h => replay_of_unique h fun o' ho' => hunique k o' _ ho' h

end ChangeLog
