import AgentSight.Lib.Gather
import AgentSight.Lib.History
import Mathlib.Algebra.Order.Group.Nat
import Mathlib.Algebra.Ring.Nat

/-!
# Amounts that are reported after the items

A log has items and reports of amounts. A report goes to the last item before it, if that has no
amount yet, and is lost otherwise. So nothing is lost exactly if between two reports of an amount,
and before the first, there is an item (`sum_attached_eq_iff`).

Then the items are gathered in runs of what is the same as the first of the run, and a run has the
largest amount of its members. So nothing is lost there exactly if each run has at most one member
with an amount (`sum_peaks_eq_iff`).
-/

namespace Reports

open List

inductive Log (α : Type*) where
  | item (a : α)
  | report (n : ℕ)

section Attach

variable {α : Type*}

/-- An item comes with no amount, and a report gives one to the last item that has none. -/
def attach (items : List (α × ℕ)) : Log α → List (α × ℕ)
  | .item a => items ++ [(a, 0)]
  | .report n =>
    match items.getLast? with
    | some (a, m) => if 0 < n ∧ m = 0 then items.dropLast ++ [(a, n)] else items
    | none => items

def attached (logs : List (Log α)) : List (α × ℕ) := logs.foldl attach []

def Log.amount : Log α → ℕ
  | .item _ => 0
  | .report n => n

/-- The last item, if there is one, waits for its amount. -/
def waiting (logs : List (Log α)) : Bool :=
  logs.foldl (fun waits log => match log with
    | .item _ => true
    | .report n => waits && n = 0) false

/-- To each report of an amount an item waits. -/
def AllTaken (logs : List (Log α)) : Prop :=
  History.Lawful (fun before log => 0 < log.amount → waiting before = true) logs

theorem waiting_iff (logs : List (Log α)) :
    waiting logs = true ↔ ∃ a, (attached logs).getLast? = some (a, 0) := by
  induction logs using List.reverseRecOn with
  | nil => simp [waiting, attached]
  | append_singleton logs log ih =>
    rw [attached, waiting, foldl_append, foldl_append, foldl_cons, foldl_cons,
      foldl_nil, foldl_nil, ← attached, ← waiting]
    cases log with
    | item a => simp [attach]
    | report n =>
      rw [attach]
      cases hlast : (attached logs).getLast? with
      | none =>
        simp [ih, hlast]
      | some last =>
        obtain ⟨a, m⟩ := last
        rw [hlast] at ih
        dsimp only
        by_cases htake : 0 < n ∧ m = 0
        · have hn : n ≠ 0 := by omega
          simp [htake, hn]
        · rw [if_neg htake, hlast, Bool.and_eq_true, ih, decide_eq_true_eq]
          constructor
          · exact And.left
          · rintro ⟨b, hb⟩
            cases hb
            exact ⟨⟨a, rfl⟩, by omega⟩

theorem sum_attach_report {items : List (α × ℕ)} {a : α} (h : items.getLast? = some (a, 0))
    (n : ℕ) : ((attach items (.report n)).map Prod.snd).sum = (items.map Prod.snd).sum + n := by
  obtain ⟨front, rfl⟩ := getLast?_eq_some_iff.mp h
  rw [attach]
  by_cases hn : 0 < n
  · simp [hn]
  · obtain rfl : n = 0 := by omega
    simp

theorem attach_report_of_ne {items : List (α × ℕ)} (h : ∀ a, items.getLast? ≠ some (a, 0)) (n : ℕ) :
    attach items (.report n) = items := by
  rw [attach]
  split
  · next a m hlast =>
    refine if_neg ?_
    rintro ⟨-, rfl⟩
    exact h a hlast
  · rfl

/-- What the items have is what was reported, as far as an item waited for it. -/
theorem sum_attached (logs : List (Log α)) :
    ((attached logs).map Prod.snd).sum ≤ (logs.map Log.amount).sum ∧
      (((attached logs).map Prod.snd).sum = (logs.map Log.amount).sum ↔ AllTaken logs) := by
  induction logs using List.reverseRecOn with
  | nil => exact ⟨le_rfl, iff_of_true rfl History.lawful_nil⟩
  | append_singleton logs log ih =>
    obtain ⟨hle, hiff⟩ := ih
    rw [AllTaken, History.lawful_concat, ← AllTaken, ← hiff, map_append, sum_append,
      map_singleton, sum_singleton, attached, foldl_append, foldl_cons,
      foldl_nil, ← attached]
    cases log with
    | item a =>
      simp only [attach, Log.amount, map_append, sum_append, map_singleton,
        sum_singleton, lt_irrefl, false_imp_iff, and_true]
      exact ⟨hle, Iff.rfl⟩
    | report n =>
      by_cases hwaits : waiting logs = true
      · obtain ⟨a, hlast⟩ := (waiting_iff logs).mp hwaits
        rw [sum_attach_report hlast]
        simp only [Log.amount, hwaits, implies_true, and_true]
        omega
      · have hlast : ∀ a, (attached logs).getLast? ≠ some (a, 0) := fun a ha =>
          hwaits ((waiting_iff logs).mpr ⟨a, ha⟩)
        rw [attach_report_of_ne hlast]
        constructor
        · exact hle.trans (Nat.le_add_right _ _)
        · constructor
          · intro heq
            rw [Log.amount] at heq
            exact ⟨by omega, fun hn => by rw [Log.amount] at hn; omega⟩
          · rintro ⟨heq, htaken⟩
            have hn : ¬ 0 < (Log.report n : Log α).amount := fun hn => hwaits (htaken hn)
            omega

/-- The items are those of the log. -/
theorem item_mem_of_attached {logs : List (Log α)} {a : α} {n : ℕ} (h : (a, n) ∈ attached logs) :
    .item a ∈ logs := by
  induction logs using List.reverseRecOn generalizing a n with
  | nil => cases h
  | append_singleton logs log ih =>
    rw [attached, foldl_append, foldl_cons] at h
    cases log with
    | item b =>
      rcases mem_append.mp h with h | h
      · exact mem_append_left _ (ih h)
      · cases mem_singleton.mp h
        exact mem_append_right _ (mem_singleton_self _)
    | report m =>
      refine mem_append_left _ ?_
      rw [attach] at h
      split at h
      · next b k hlast =>
        split at h
        · rcases mem_append.mp h with h | h
          · exact ih (dropLast_subset _ h)
          · cases mem_singleton.mp h
            exact ih (mem_of_getLast? hlast)
        · exact ih h
      · exact ih h

end Attach

/-! ### Runs -/

section Runs

variable {β : Type*} (same : β → β → Bool) (value : β → ℕ)

/-- The last run takes what is the same as its first member. -/
def addRun (runs : List (β × List β)) (b : β) : List (β × List β) :=
  match runs.getLast? with
  | some (first, rest) =>
    if same first b then runs.dropLast ++ [(first, rest ++ [b])] else runs ++ [(b, [])]
  | none => runs ++ [(b, [])]

def runs (l : List β) : List (β × List β) := l.foldl (addRun same) []

def members (run : β × List β) : List β := run.1 :: run.2

/-- The largest amount of a member. -/
def peak (run : β × List β) : ℕ := run.2.foldl (fun m b => max m (value b)) (value run.1)

/-- At most one member has an amount. -/
def AtMostOne (run : β × List β) : Prop := (members run).countP (0 < value ·) ≤ 1

instance : DecidablePred (AtMostOne value) := fun run =>
  inferInstanceAs (Decidable ((members run).countP (0 < value ·) ≤ 1))

theorem sum_members_runs (l : List β) :
    ((runs same l).map fun run => ((members run).map value).sum).sum = (l.map value).sum := by
  induction l using List.reverseRecOn with
  | nil => rfl
  | append_singleton l b ih =>
    rw [map_append, sum_append, ← ih, runs, foldl_append, foldl_cons,
      ← runs, addRun]
    split
    · next first rest hlast =>
      obtain ⟨front, hfront⟩ := getLast?_eq_some_iff.mp hlast
      rw [hfront]
      split
      · simp [members, add_assoc]
      · simp [members, add_assoc]
    · simp [members]

theorem foldl_max (m : ℕ) (l : List β) :
    l.foldl (fun m b => max m (value b)) m ≤ m + (l.map value).sum ∧
      (l.foldl (fun m b => max m (value b)) m = m + (l.map value).sum ↔
        (if 0 < m then 1 else 0) + l.countP (0 < value ·) ≤ 1) := by
  induction l generalizing m with
  | nil =>
    simp only [foldl_nil, map_nil, sum_nil, countP_nil, add_zero]
    refine ⟨le_rfl, iff_of_true trivial ?_⟩
    split
    · exact le_rfl
    · exact Nat.zero_le 1
  | cons b l ih =>
    obtain ⟨hle, hiff⟩ := ih (max m (value b))
    simp only [foldl_cons, map_cons, sum_cons, countP_cons]
    rcases Nat.eq_zero_or_pos (value b) with hb | hb
    · simp only [hb, Nat.max_zero, lt_irrefl, decide_false, zero_add, add_zero, if_false,
        Bool.false_eq_true] at hle hiff ⊢
      exact ⟨hle, hiff⟩
    · rcases Nat.eq_zero_or_pos m with rfl | hm
      · simp only [Nat.zero_max, hb, if_true, lt_irrefl, if_false, zero_add, decide_true]
          at hle hiff ⊢
        exact ⟨hle, by omega⟩
      · -- Of two members with an amount the smaller one is lost.
        simp only [hb, hm, if_true, decide_true]
        omega

/-- What the runs have is what their members had, as far as it is not one of several amounts. -/
theorem sum_peaks (l : List β) : ((runs same l).map (peak value)).sum ≤ (l.map value).sum ∧
      (((runs same l).map (peak value)).sum = (l.map value).sum ↔
        ∀ run ∈ runs same l, AtMostOne value run) := by
  have hpeak (run : β × List β) := foldl_max value (value run.1) run.2
  have hle : ∀ run ∈ runs same l, peak value run ≤ ((members run).map value).sum :=
    fun run _ => (hpeak run).1
  rw [← sum_members_runs same value l, KeyedTable.sum_eq_sum_iff hle]
  refine ⟨sum_le_sum hle, forall₂_congr fun run _ => ?_⟩
  rw [AtMostOne, members, countP_cons, add_comm]
  simpa [peak] using (hpeak run).2

/-! ### Rows of runs -/

variable {same value}

/-- The last row takes what is the same as it. -/
def mergeInto (same : β → β → Bool) (merge : β → β → β) (rows : List β) (b : β) : List β :=
  match rows.getLast? with
  | some row => if same row b then rows.dropLast ++ [merge row b] else rows ++ [b]
  | none => rows ++ [b]

def row (merge : β → β → β) (run : β × List β) : β := run.2.foldl merge run.1

/-- The rows are those of the runs, if a merge changes nothing of what a row is the same as. -/
theorem foldl_mergeInto {merge : β → β → β}
    (keeps : ∀ a b c, same a b = true → same (merge a b) c = same a c) (l : List β) :
    l.foldl (mergeInto same merge) [] = (runs same l).map (row merge) := by
  have hrun : l.foldl (mergeInto same merge) [] = (runs same l).map (row merge) ∧
      ∀ run ∈ runs same l, ∀ c, same (row merge run) c = same run.1 c := by
    induction l using List.reverseRecOn with
    | nil => exact ⟨rfl, nofun⟩
    | append_singleton l b ih =>
      obtain ⟨hrows, hfirst⟩ := ih
      rw [runs, foldl_append, foldl_append, foldl_cons, foldl_cons,
        foldl_nil, foldl_nil, ← runs, hrows, mergeInto, addRun, getLast?_map]
      cases hlast : (runs same l).getLast? with
      | none =>
        simp only [Option.map_none, map_append, map_singleton]
        refine ⟨rfl, fun run hmem c => ?_⟩
        rcases mem_append.mp hmem with hmem | hmem
        · exact hfirst run hmem c
        · obtain rfl := mem_singleton.mp hmem
          rfl
      | some last =>
        have hsame := hfirst last (mem_of_getLast? hlast)
        simp only [Option.map_some, hsame]
        by_cases hb : same last.1 b = true
        · simp only [hb, if_true, map_append, map_singleton, map_dropLast]
          have hrow : row merge (last.1, last.2 ++ [b]) = merge (row merge last) b := by
            rw [row, foldl_append]
            rfl
          refine ⟨by rw [hrow], fun run hmem c => ?_⟩
          rcases mem_append.mp hmem with hmem | hmem
          · exact hfirst run (dropLast_subset _ hmem) c
          · obtain rfl := mem_singleton.mp hmem
            rw [hrow, keeps _ _ _ ((hsame b).trans hb), hsame]
        · simp only [hb, if_false, map_append, map_singleton, Bool.false_eq_true]
          refine ⟨rfl, fun run hmem c => ?_⟩
          rcases mem_append.mp hmem with hmem | hmem
          · exact hfirst run hmem c
          · obtain rfl := mem_singleton.mp hmem
            rfl
  exact hrun.1

/-- The row of a run has the largest amount. -/
theorem value_row {merge : β → β → β} (h : ∀ a b, value (merge a b) = max (value a) (value b))
    (run : β × List β) : value (row merge run) = peak value run := by
  obtain ⟨first, rest⟩ := run
  rw [row, peak]
  induction rest generalizing first with
  | nil => rfl
  | cons b rest ih => rw [foldl_cons, foldl_cons, ih, h]

variable {γ : Type*} {f : β → γ}

theorem runs_map {same' : γ → γ → Bool} (h : ∀ a b, same' (f a) (f b) = same a b) (l : List β) :
    runs same' (l.map f) = (runs same l).map (Prod.map f (List.map f)) := by
  induction l using List.reverseRecOn with
  | nil => rfl
  | append_singleton l b ih =>
    rw [map_append, map_singleton, runs, runs, foldl_append, foldl_append,
      foldl_cons, foldl_cons, ← runs, ← runs, ih, addRun,
      addRun, getLast?_map]
    cases (runs same l).getLast? with
    | none => simp
    | some last =>
      simp only [Option.map_some, Prod.map_apply', h]
      split
      · simp [map_dropLast]
      · simp

theorem peak_map {value' : γ → ℕ} (h : ∀ b, value' (f b) = value b) (run : β × List β) :
    peak value' (Prod.map f (List.map f) run) = peak value run := by
  simp [peak, foldl_map, h]

end Runs

end Reports
