import AgentSight.Lib.KeyedTable

/-!
# Tables under versions

Things that change are written to a table, one row for each of their parts, and a later version is
written over an earlier one. Rows are only ever put, so the table shows the latest versions as long
as a new version puts a row wherever the one before it had one, and no two things share a key.
-/

namespace AgentSight.Overlay

open KeyedTable List

variable {κ ρ ν ι : Type} [DecidableEq κ] [DecidableEq ι]

/-- A table after rows were put in it, one by one. -/
def put (table : κ → Option ρ) (rows : List (κ × ρ)) : κ → Option ρ :=
  rows.foldl (fun table row => Function.update table row.1 (some row.2)) table

/-- The table has the rows of the versions, and no others. -/
def Shows (rows : ν → List (κ × ρ)) (versions : List ν) (table : κ → Option ρ) : Prop :=
  ∀ k r, table k = some r ↔ ∃ v ∈ versions, (k, r) ∈ rows v

/-- A version takes the place of the one before it. -/
def renew (ident : ν → ι) (versions : List ν) (v : ν) : List ν :=
  delete ident versions (ident v) ++ [v]

variable {table : κ → Option ρ} {rows : List (κ × ρ)} {k : κ} {r : ρ}

theorem put_of_notMem (h : k ∉ rows.map Prod.fst) : put table rows k = table k := by
  induction rows generalizing table with
  | nil => rfl
  | cons row rows ih =>
    rw [map_cons, mem_cons, not_or] at h
    exact (ih h.2).trans (Function.update_of_ne h.1 _ _)

theorem put_of_mem (hrows : (rows.map Prod.fst).Nodup) (h : (k, r) ∈ rows) :
    put table rows k = some r := by
  induction rows generalizing table with
  | nil => exact absurd h not_mem_nil
  | cons row rows ih =>
    rw [map_cons, nodup_cons] at hrows
    rcases mem_cons.mp h with rfl | h
    · exact (put_of_notMem hrows.1).trans (Function.update_self ..)
    · exact ih hrows.2 h

theorem put_eq_some (hrows : (rows.map Prod.fst).Nodup) :
    put table rows k = some r ↔ (k, r) ∈ rows ∨ k ∉ rows.map Prod.fst ∧ table k = some r := by
  constructor
  · intro h
    by_cases hk : k ∈ rows.map Prod.fst
    · obtain ⟨⟨k, r'⟩, hrow, rfl⟩ := mem_map.mp hk
      obtain rfl := Option.some.inj ((put_of_mem hrows hrow).symm.trans h)
      exact .inl hrow
    · exact .inr ⟨hk, (put_of_notMem hk).symm.trans h⟩
  · rintro (h | ⟨hk, h⟩)
    · exact put_of_mem hrows h
    · exact (put_of_notMem hk).trans h

theorem mem_renew {ident : ν → ι} {versions : List ν} {v w : ν} :
    w ∈ renew ident versions v ↔ w ∈ versions ∧ ident w ≠ ident v ∨ w = v := by
  rw [renew, mem_append, mem_delete, mem_singleton]

/-- The rule of one version: it covers the keys of the version before it, and keeps off those of
the others. -/
theorem Shows.renew {rows : ν → List (κ × ρ)} {ident : ν → ι} {versions : List ν} {v : ν}
    (h : Shows rows versions table) (hnodup : ((rows v).map Prod.fst).Nodup)
    (hcovers : ∀ w ∈ versions, ident w = ident v → (rows w).map Prod.fst ⊆ (rows v).map Prod.fst)
    (happart : ∀ w ∈ versions, ident w ≠ ident v →
      ((rows w).map Prod.fst).Disjoint ((rows v).map Prod.fst)) :
    Shows rows (renew ident versions v) (put table (rows v)) := by
  intro k r
  rw [put_eq_some hnodup, h k r]
  constructor
  · rintro (hrow | ⟨hk, w, hw, hrow⟩)
    · exact ⟨v, mem_renew.mpr (.inr rfl), hrow⟩
    · refine ⟨w, mem_renew.mpr (.inl ⟨hw, fun hident => hk ?_⟩), hrow⟩
      exact hcovers w hw hident (mem_map_of_mem hrow)
  · rintro ⟨w, hw, hrow⟩
    rcases mem_renew.mp hw with ⟨hw, hident⟩ | rfl
    · exact .inr ⟨happart w hw hident (mem_map_of_mem hrow), w, hw, hrow⟩
    · exact .inl hrow

end AgentSight.Overlay
