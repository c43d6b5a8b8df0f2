import AgentSight.View.Materialized
import AgentSight.Lib.Retention

/-!
# The audit rows that are retained

`apply_audit_event` stores a row under its id, appends the id to `audit_order` if it is new, and
drops the rows of the first ids in the order while there are more rows than `max_audit_events`.
What it keeps is what bounded retention keeps of the calls. A row whose id has been dropped comes
in anew: it goes to the end of the order, and it is counted again.
-/

namespace AgentSight.View

open Retention (Holds arrivals keep newest place record)
open Std (TreeMap)
open List

/-! ### One call -/

section Storing

variable {ρ : Type} {key : ρ → String} {f : AuditEventRow → ρ} {kept : List ρ}

/-- Evicting drops the rows that a bound of the same size would not have kept. -/
theorem evictAudits_spec (max : ℕ) {events : TreeMap String AuditEventRow}
    (h : Holds key f events kept) :
    (evictAudits max (kept.map key) events).1 = (newest (some max) kept).map key ∧
      Holds key f (evictAudits max (kept.map key) events).2 (newest (some max) kept) := by
  induction kept generalizing events with
  | nil => exact ⟨by simp [evictAudits, newest], by simpa [evictAudits, newest] using h⟩
  | cons row kept ih =>
    have hsize := h.size_eq
    rw [length_cons] at hsize
    rw [map_cons, evictAudits]
    split_ifs with hmax
    · have hnewest : newest (some max) (row :: kept) = newest (some max) kept := by
        simp only [newest, length_cons]
        rw [Nat.succ_sub (by omega), drop_succ_cons]
      rw [hnewest]
      exact ih h.erase
    · have hnewest : newest (some max) (row :: kept) = row :: kept := by
        simp only [newest, length_cons]
        rw [Nat.sub_eq_zero_of_le (by omega), drop_zero]
      rw [hnewest]
      exact ⟨rfl, h⟩

variable {σ : Type} {v : MaterializedView σ}

/-- A call keeps what the retention of the row keeps; without a bound there is no order. -/
theorem holds_applyAuditEvent (h : Holds key f v.auditEvents kept)
    (horder : v.maxAuditEvents.isSome → v.auditOrder = kept.map key) (row : AuditEventRow)
    (hkey : key (f row) = row.id) :
    Holds key f (v.applyAuditEvent row).auditEvents (record key v.maxAuditEvents kept (f row)) ∧
      (v.maxAuditEvents.isSome → (v.applyAuditEvent row).auditOrder =
        (record key v.maxAuditEvents kept (f row)).map key) := by
  have hplace := h.insert row
  rw [hkey] at hplace
  rw [MaterializedView.applyAuditEvent, MaterializedView.observe]
  dsimp only
  cases hmax : v.maxAuditEvents with
  | none => exact ⟨hplace, fun hsome => nomatch hsome⟩
  | some max =>
    have hcontains := h.contains_iff row.id
    have hids : (if !v.auditEvents.contains row.id && (some max).isSome then
        v.auditOrder ++ [row.id] else v.auditOrder) = (place key kept (f row)).map key := by
      rw [Retention.map_key_place, horder (by rw [hmax]; rfl), hkey]
      by_cases hmem : row.id ∈ kept.map key
      · rw [if_pos hmem, hcontains.mpr hmem]
        rfl
      · rw [if_neg hmem, Bool.eq_false_iff.mpr (mt hcontains.mp hmem)]
        rfl
    rw [hids]
    exact ⟨(evictAudits_spec max hplace).2, fun _ => (evictAudits_spec max hplace).1⟩

end Storing

/-! ### A sequence of calls -/

/-- A bounded view after the calls. -/
def auditsAfter (max : ℕ) (rows : List AuditEventRow) : MaterializedView Unit :=
  rows.foldl MaterializedView.applyAuditEvent
    { MaterializedView.new [] with maxAuditEvents := some max }

/-- The state of a view whose calls were `rows`. -/
structure Retains (max : ℕ) (rows : List AuditEventRow) (v : MaterializedView Unit) : Prop where
  maxAuditEvents : v.maxAuditEvents = some max
  holds : Holds AuditEventRow.id id v.auditEvents (keep AuditEventRow.id (some max) rows)
  order : v.auditOrder = (keep AuditEventRow.id (some max) rows).map AuditEventRow.id
  counts : v.counts =
    { auditEvents := (arrivals AuditEventRow.id (some max) rows).length : ViewCounts }

theorem Retains.step {max : ℕ} {rows : List AuditEventRow} {v : MaterializedView Unit}
    (h : Retains max rows v) (row : AuditEventRow) :
    Retains max (rows ++ [row]) (v.applyAuditEvent row) := by
  obtain ⟨hholds, horder⟩ := holds_applyAuditEvent h.holds (fun _ => h.order) row rfl
  rw [h.maxAuditEvents] at hholds horder
  refine ⟨h.maxAuditEvents, ?_, ?_, ?_⟩
  · rw [Retention.keep_concat]
    exact hholds
  · rw [Retention.keep_concat]
    exact horder rfl
  · have hcontains := h.holds.contains_iff row.id
    rw [Retention.map_key_keep] at hcontains
    change (if !v.auditEvents.contains row.id then
      { v.counts with auditEvents := v.counts.auditEvents + 1 } else v.counts) = _
    rw [Retention.arrivals_concat, h.counts]
    by_cases hmem : row.id ∈ newest (some max) (arrivals AuditEventRow.id (some max) rows)
    · rw [if_pos hmem, hcontains.mpr hmem]
      rfl
    · rw [if_neg hmem, Bool.eq_false_iff.mpr (mt hcontains.mp hmem), length_append]
      rfl

theorem retains_auditsAfter (max : ℕ) (rows : List AuditEventRow) :
    Retains max rows (auditsAfter max rows) := by
  induction rows using List.reverseRecOn with
  | nil => exact ⟨rfl, Holds.empty, rfl, rfl⟩
  | append_singleton rows row ih =>
    rw [auditsAfter, foldl_concat]
    exact ih.step row

/-- **Bounded audit retention.** The order has each retained id once, there are at most `max` rows,
the retained ids are those that came in last, and the counter of audit rows has counted each time
that an id came in; the other counters stay at zero. -/
theorem audit_retention (max : ℕ) (rows : List AuditEventRow) :
    (auditsAfter max rows).auditOrder.Nodup ∧
      (∀ id, (auditsAfter max rows).auditEvents.contains id = true ↔
        id ∈ (auditsAfter max rows).auditOrder) ∧
      (auditsAfter max rows).auditEvents.size ≤ max ∧
      (auditsAfter max rows).auditOrder =
        newest (some max) (arrivals AuditEventRow.id (some max) rows) ∧
      (auditsAfter max rows).counts =
        { auditEvents := (arrivals AuditEventRow.id (some max) rows).length } := by
  have h := retains_auditsAfter max rows
  have hkeys := h.order.trans Retention.map_key_keep
  refine ⟨h.order ▸ h.holds.nodup, fun id => h.order ▸ h.holds.contains_iff id, ?_, hkeys, h.counts⟩
  rw [h.holds.size_eq, ← length_map AuditEventRow.id, ← h.order, hkeys]
  exact Retention.length_newest_le

/-- An id that comes back after it was dropped is counted twice, and the id that was first there
after it is dropped: with room for one row, of the ids `a`, `b`, `a`. -/
theorem audit_counts_returning_id : ¬ ∀ (max : ℕ) (rows : List AuditEventRow),
      (auditsAfter max rows).auditOrder = newest (some max) (rows.map AuditEventRow.id).eraseDups ∧
        (auditsAfter max rows).counts.auditEvents =
          (rows.map AuditEventRow.id).eraseDups.length := by
  intro h
  let row id : AuditEventRow := { (default : AuditEventRow) with id }
  have hcounts := (h 1 [row "a", row "b", row "a"]).2
  rw [(retains_auditsAfter _ _).counts] at hcounts
  revert hcounts
  decide

end AgentSight.View
