import AgentSight.Lib.LinearProbing

/-!
# The userspace pid tracker

`pid_tracker` of `bpf/process_filter.h`: an open-addressing table of 4096 entries with
linear probing, whose removal re-inserts the rest of the probe cluster. The functions below
follow the C loops; a pointer to an entry is the entry's index, and `NULL` is `none`.

`PidSet` states what the table is for: a set of at most `MAX_TRACKED_PIDS` pids. The table
refines it (`pidTracker_refines_pidSet`) for every sequence of calls, with no condition on
the pids: clusters may wrap, the table may be full, removals may name absent pids.
-/

namespace AgentSight.Bpf

open LinearProbing Option

/-! ### The table -/

def maxTrackedPids : ℕ := 4096

def trackedPidsHashSize : ℕ := 4096

def trackedPidsHashMask : ℕ := trackedPidsHashSize - 1

instance : NeZero trackedPidsHashSize := ⟨by decide⟩

structure TrackedPidEntry where
  pid : Int32
  ppid : Int32
  isTracked : Bool
  /-- `false` is an empty slot. -/
  isActive : Bool
  deriving DecidableEq

inductive FilterMode where
  | all
  | proc
  | filter
  deriving DecidableEq

structure PidTracker where
  entries : Fin trackedPidsHashSize → TrackedPidEntry
  commandFilters : List String
  filterMode : FilterMode
  /-- For the `-p` option. -/
  targetPid : Int32

/-- `(unsigned int)pid & TRACKED_PIDS_HASH_MASK`. -/
def pidHash (pid : Int32) : ℕ := pid.toUInt32.toNat &&& trackedPidsHashMask

theorem and_mask_lt (n : ℕ) : n &&& trackedPidsHashMask < trackedPidsHashSize :=
  lt_of_le_of_lt Nat.and_le_right (by decide)

/-- `(hash + i) & TRACKED_PIDS_HASH_MASK`. -/
def probeIndex (hash i : ℕ) : Fin trackedPidsHashSize :=
  ⟨(hash + i) &&& trackedPidsHashMask, and_mask_lt _⟩

/-- The entries of a `memset` to zero. -/
def zeroEntry : TrackedPidEntry := ⟨0, 0, false, false⟩

def pidTrackerInit (commandFilters : List String) (filterMode : FilterMode)
    (targetPid : Int32) : PidTracker :=
  { entries := fun _ => zeroEntry, commandFilters, filterMode, targetPid }

/-- Write one entry. -/
def PidTracker.setEntry (t : PidTracker) (idx : Fin trackedPidsHashSize)
    (entry : TrackedPidEntry) : PidTracker :=
  { t with entries := Function.update t.entries idx entry }

def pidTrackerFindFrom (t : PidTracker) (pid : Int32) (i : ℕ) : ℕ → Option (Fin trackedPidsHashSize)
  | 0 => none
  | fuel + 1 =>
    let idx := probeIndex (pidHash pid) i
    if !(t.entries idx).isActive then none
    else if (t.entries idx).pid = pid then some idx
    else pidTrackerFindFrom t pid (i + 1) fuel

def pidTrackerFind (t : PidTracker) (pid : Int32) : Option (Fin trackedPidsHashSize) :=
  pidTrackerFindFrom t pid 0 trackedPidsHashSize

/-- The second loop of `pid_tracker_add`: take the first inactive slot. -/
def pidTrackerFillFrom (t : PidTracker) (pid ppid : Int32) (i : ℕ) : ℕ → PidTracker × Bool
  | 0 => (t, false)
  | fuel + 1 =>
    let idx := probeIndex (pidHash pid) i
    if !(t.entries idx).isActive then (t.setEntry idx ⟨pid, ppid, true, true⟩, true)
    else pidTrackerFillFrom t pid ppid (i + 1) fuel

def pidTrackerAdd (t : PidTracker) (pid ppid : Int32) : PidTracker × Bool :=
  if (pidTrackerFind t pid).isSome then (t, true)
  else pidTrackerFillFrom t pid ppid 0 trackedPidsHashSize

/-- The inner loop of `pid_tracker_remove`: rehash the rest of the cluster. -/
def pidTrackerRehashFrom (t : PidTracker) (idx : Fin trackedPidsHashSize) (n : ℕ) : ℕ → PidTracker
  | 0 => t
  | fuel + 1 =>
    let j := probeIndex idx n
    if !(t.entries j).isActive then t
    else
      let moved := t.entries j
      let t := t.setEntry j { moved with isActive := false }
      let t := if moved.isTracked then (pidTrackerAdd t moved.pid moved.ppid).1 else t
      pidTrackerRehashFrom t idx (n + 1) fuel

def pidTrackerRemoveFrom (t : PidTracker) (pid : Int32) (i : ℕ) : ℕ → PidTracker
  | 0 => t
  | fuel + 1 =>
    let idx := probeIndex (pidHash pid) i
    if !(t.entries idx).isActive then t
    else if (t.entries idx).pid ≠ pid then pidTrackerRemoveFrom t pid (i + 1) fuel
    else
      pidTrackerRehashFrom (t.setEntry idx { t.entries idx with isActive := false }) idx 1
        (trackedPidsHashSize - 1)

def pidTrackerRemove (t : PidTracker) (pid : Int32) : PidTracker :=
  pidTrackerRemoveFrom t pid 0 trackedPidsHashSize

def pidTrackerIsTracked (t : PidTracker) (pid : Int32) : Bool :=
  match pidTrackerFind t pid with
  | some idx => (t.entries idx).isTracked
  | none => false

/-! ### The table as an open-addressing table -/

/-- The home slot of a pid. -/
def home (pid : Int32) : Fin trackedPidsHashSize := probeIndex (pidHash pid) 0

/-- What each slot holds: the pid of an active entry. -/
def occupancy (t : PidTracker) : Table trackedPidsHashSize Int32 := fun s =>
  if (t.entries s).isActive then some (t.entries s).pid else none

theorem and_mask_eq_mod (n : ℕ) : n &&& trackedPidsHashMask = n % trackedPidsHashSize :=
  Nat.and_two_pow_sub_one_eq_mod n 12

theorem probeIndex_eq_slot (idx : Fin trackedPidsHashSize) (n : ℕ) :
    probeIndex idx n = slot idx n := by
  simp [probeIndex, slot, Fin.ext_iff, Fin.val_add, and_mask_eq_mod]

theorem probeIndex_pidHash (pid : Int32) (i : ℕ) :
    probeIndex (pidHash pid) i = slot (home pid) i := by
  simp [home, probeIndex, slot, Fin.ext_iff, Fin.val_add, and_mask_eq_mod]

variable {s : Fin trackedPidsHashSize}

@[simp]
theorem occupancy_eq_none_iff {t : PidTracker} :
    occupancy t s = none ↔ (t.entries s).isActive = false := by
  simp [occupancy]

@[simp]
theorem occupancy_eq_some_iff {t : PidTracker} {pid : Int32} :
    occupancy t s = some pid ↔ (t.entries s).isActive = true ∧ (t.entries s).pid = pid := by
  simp [occupancy]

section

variable (t : PidTracker)

theorem occupancy_fill (s : Fin trackedPidsHashSize) (pid ppid : Int32) :
    occupancy (t.setEntry s ⟨pid, ppid, true, true⟩) = put (occupancy t) s pid := by
  funext s'
  by_cases e : s' = s
  · simp [e, occupancy, PidTracker.setEntry]
  · simp [e, occupancy, PidTracker.setEntry, put_of_ne]

theorem occupancy_deactivate (s : Fin trackedPidsHashSize) :
    occupancy (t.setEntry s { t.entries s with isActive := false }) = clear (occupancy t) s := by
  funext s'
  by_cases e : s' = s
  · simp [e, occupancy, PidTracker.setEntry]
  · simp [e, occupancy, PidTracker.setEntry, clear_of_ne]

/-- The find loop is the probe for the pid; it answers an index only at an active slot. -/
theorem pidTrackerFindFrom_eq (pid : Int32) (i fuel : ℕ) :
    pidTrackerFindFrom t pid i fuel =
      (probeFrom (stopsAt (occupancy t) pid) (home pid) i fuel).filter
        fun s => (t.entries s).isActive := by
  induction fuel generalizing i with
  | zero => rfl
  | succ fuel ih =>
    simp only [pidTrackerFindFrom, probeFrom, probeIndex_pidHash, ih]
    by_cases ha : (t.entries (slot (home pid) i)).isActive = true
    · by_cases hp : (t.entries (slot (home pid) i)).pid = pid
      · simp [stopsAt, ha, hp, filter_some]
      · simp [stopsAt, ha, hp]
    · simp [stopsAt, ha, filter_some]

/-- The fill loop stores the pid at the first hole of the probe. -/
theorem pidTrackerFillFrom_eq (pid ppid : Int32) (i fuel : ℕ) :
    pidTrackerFillFrom t pid ppid i fuel =
      match probeFrom (isHole (occupancy t)) (home pid) i fuel with
      | some s => (t.setEntry s ⟨pid, ppid, true, true⟩, true)
      | none => (t, false) := by
  induction fuel generalizing i with
  | zero => rfl
  | succ fuel ih =>
    simp only [pidTrackerFillFrom, probeFrom, probeIndex_pidHash, ih]
    by_cases ha : (t.entries (slot (home pid) i)).isActive = true
    · have hh : isHole (occupancy t) (slot (home pid) i) = false := by simp [ha]
      simp [ha, hh]
    · have hh : isHole (occupancy t) (slot (home pid) i) = true := by simp [ha]
      simp [ha, hh]

end

/-! ### The invariant of the tracker -/

/-- The occupancy is well formed and every active entry is tracked. -/
structure PidTracker.Valid (t : PidTracker) : Prop where
  wellFormed : WellFormed home (occupancy t)
  tracked : ∀ s, (t.entries s).isActive = true → (t.entries s).isTracked = true

variable {t : PidTracker} {pid ppid : Int32}

theorem pidTrackerFind_eq_some_iff (h : t.Valid) :
    pidTrackerFind t pid = some s ↔ occupancy t s = some pid := by
  rw [← h.wellFormed.probe_iff, pidTrackerFind, pidTrackerFindFrom_eq, probe]
  simp [filter_eq_some_iff]

theorem pidTrackerFind_eq_none_iff (h : t.Valid) :
    pidTrackerFind t pid = none ↔ ¬ Mem (occupancy t) pid := by
  rw [eq_none_iff_forall_ne_some]
  simp [ne_eq, pidTrackerFind_eq_some_iff h, Mem, not_exists]

/-- The tracked answer is membership. -/
theorem pidTrackerIsTracked_iff (h : t.Valid) :
    pidTrackerIsTracked t pid = true ↔ Mem (occupancy t) pid := by
  cases hf : pidTrackerFind t pid with
  | none => simpa [pidTrackerIsTracked, hf] using (pidTrackerFind_eq_none_iff h).mp hf
  | some s =>
    have hs := (pidTrackerFind_eq_some_iff h).mp hf
    simp only [pidTrackerIsTracked, hf, h.tracked s (occupancy_eq_some_iff.mp hs).1, true_iff]
    exact ⟨s, hs⟩

theorem pidTrackerInit_valid (filters : List String) (mode : FilterMode) (target : Int32) :
    (pidTrackerInit filters mode target).Valid where
  wellFormed :=
    { inj := fun h => by simp [pidTrackerInit, zeroEntry] at h
      placed := ⟨0, fun s k h => by simp [pidTrackerInit, zeroEntry] at h⟩ }
  tracked := fun s h => by simp [pidTrackerInit, zeroEntry] at h

theorem setEntry_tracked {entry : TrackedPidEntry}
    (h : ∀ s, (t.entries s).isActive = true → (t.entries s).isTracked = true)
    (he : entry.isActive = true → entry.isTracked = true) (s' : Fin trackedPidsHashSize) :
    ((t.setEntry s entry).entries s').isActive = true →
      ((t.setEntry s entry).entries s').isTracked = true := by
  by_cases e : s' = s
  · simpa [e, PidTracker.setEntry] using he
  · simpa [e, PidTracker.setEntry] using h s'

/-- What `pid_tracker_add` does to an absent pid: it fills the first hole of its probe, and
answers whether there was one. -/
theorem pidTrackerAdd_of_not_mem (hk : pidTrackerFind t pid = none) : pidTrackerAdd t pid ppid =
      match probe (isHole (occupancy t)) (home pid) with
      | some s => (t.setEntry s ⟨pid, ppid, true, true⟩, true)
      | none => (t, false) := by
  simp only [pidTrackerAdd, hk, isSome_none, Bool.false_eq_true, if_false,
    pidTrackerFillFrom_eq, probe]

theorem pidTrackerAdd_of_mem (h : t.Valid) (hk : Mem (occupancy t) pid) :
    pidTrackerAdd t pid ppid = (t, true) := by
  have hne : pidTrackerFind t pid ≠ none := fun hc =>
    (pidTrackerFind_eq_none_iff h).mp hc hk
  simp [pidTrackerAdd, isSome_iff_ne_none.mpr hne]

theorem pidTrackerAdd_valid (h : t.Valid) : (pidTrackerAdd t pid ppid).1.Valid := by
  by_cases hk : Mem (occupancy t) pid
  · rw [pidTrackerAdd_of_mem h hk]
    exact h
  · rw [pidTrackerAdd_of_not_mem ((pidTrackerFind_eq_none_iff h).mpr hk)]
    cases hp : probe (isHole (occupancy t)) (home pid) with
    | none => exact h
    | some s =>
      refine ⟨?_, setEntry_tracked h.tracked fun _ => rfl⟩
      rw [occupancy_fill]
      exact h.wellFormed.insert hk hp

/-! ### Removal -/

/-- Re-adding a moved pid is the re-insertion of the open-addressing table: the pid was just
taken out, so its own lookup cannot find it. -/
theorem occupancy_pidTrackerAdd (hk : ¬ Mem (occupancy t) pid) :
    occupancy (pidTrackerAdd t pid ppid).1 = reinsert home (occupancy t) pid := by
  have hfind : pidTrackerFind t pid = none := by
    rw [eq_none_iff_forall_ne_some]
    intro s hs
    rw [pidTrackerFind, pidTrackerFindFrom_eq, filter_eq_some_iff] at hs
    have hstop := (probe_eq_some_iff.mp hs.1).1
    have hne : occupancy t s ≠ none := by simpa using hs.2
    exact hk ⟨s, by simpa [stopsAt, hne] using hstop⟩
  rw [pidTrackerAdd_of_not_mem hfind, reinsert]
  cases probe (isHole (occupancy t)) (home pid) with
  | none => rfl
  | some s => exact occupancy_fill t s pid ppid

theorem pidTrackerAdd_tracked
    (h : ∀ s, (t.entries s).isActive = true → (t.entries s).isTracked = true)
    (s : Fin trackedPidsHashSize) :
    ((pidTrackerAdd t pid ppid).1.entries s).isActive = true →
      ((pidTrackerAdd t pid ppid).1.entries s).isTracked = true := by
  rw [pidTrackerAdd]
  split
  · exact h s
  · rw [pidTrackerFillFrom_eq]
    split
    · exact setEntry_tracked h (fun _ => rfl) s
    · exact h s

/-- The rehash loop is the one of the open-addressing table, as long as no pid is stored
twice and every active entry is tracked. -/
theorem occupancy_rehashFrom
    (hinj : ∀ {s s' pid}, occupancy t s = some pid → occupancy t s' = some pid → s = s')
    (htr : ∀ s, (t.entries s).isActive = true → (t.entries s).isTracked = true)
    (idx : Fin trackedPidsHashSize) (n fuel : ℕ) :
    occupancy (pidTrackerRehashFrom t idx n fuel) = rehash home idx (occupancy t) n fuel ∧
      ∀ s, ((pidTrackerRehashFrom t idx n fuel).entries s).isActive = true →
        ((pidTrackerRehashFrom t idx n fuel).entries s).isTracked = true := by
  induction fuel generalizing t n with
  | zero => exact ⟨rfl, htr⟩
  | succ fuel ih =>
    by_cases ha : (t.entries (slot idx n)).isActive = true
    · have hs : occupancy t (slot idx n) = some (t.entries (slot idx n)).pid := by simp [ha]
      -- deactivating an entry and adding its pid again is one reinsertion
      have hadd : occupancy (pidTrackerAdd (t.setEntry (slot idx n)
            { t.entries (slot idx n) with isActive := false }) (t.entries (slot idx n)).pid
            (t.entries (slot idx n)).ppid).1 =
          reinsert home (clear (occupancy t) (slot idx n)) (t.entries (slot idx n)).pid := by
        rw [occupancy_pidTrackerAdd, occupancy_deactivate]
        rw [occupancy_deactivate]
        exact not_mem_clear hinj hs
      have hstep := @ih (pidTrackerAdd (t.setEntry (slot idx n)
          { t.entries (slot idx n) with isActive := false }) (t.entries (slot idx n)).pid
          (t.entries (slot idx n)).ppid).1
        (fun {s s' pid} h₁ h₂ => reinsert_clear_inj hinj hs (hadd ▸ h₁) (hadd ▸ h₂))
        (fun s => pidTrackerAdd_tracked (setEntry_tracked htr (by simp)) s) (n + 1)
      rw [hadd] at hstep
      simpa [pidTrackerRehashFrom, rehash, probeIndex_eq_slot, ha, htr _ ha, hs] using hstep
    · have hs : occupancy t (slot idx n) = none := by simp [ha]
      simpa [pidTrackerRehashFrom, rehash, probeIndex_eq_slot, ha, hs] using htr

/-- The outer loop of `pid_tracker_remove` is the find loop followed by the removal of the
entry found. -/
theorem pidTrackerRemoveFrom_eq (i fuel : ℕ) : pidTrackerRemoveFrom t pid i fuel =
      match pidTrackerFindFrom t pid i fuel with
      | some idx =>
        pidTrackerRehashFrom (t.setEntry idx { t.entries idx with isActive := false }) idx 1
          (trackedPidsHashSize - 1)
      | none => t := by
  induction fuel generalizing i with
  | zero => rfl
  | succ fuel ih =>
    simp only [pidTrackerRemoveFrom, pidTrackerFindFrom]
    by_cases ha : (t.entries (probeIndex (pidHash pid) i)).isActive = true
    · by_cases hp : (t.entries (probeIndex (pidHash pid) i)).pid = pid
      · simp [ha, hp]
      · simp [ha, hp, ih]
    · simp [ha]

theorem pidTrackerRemove_of_not_mem (h : t.Valid) (hk : ¬ Mem (occupancy t) pid) :
    pidTrackerRemove t pid = t := by
  have hf := (pidTrackerFind_eq_none_iff h).mpr hk
  rw [pidTrackerFind] at hf
  rw [pidTrackerRemove, pidTrackerRemoveFrom_eq, hf]

theorem pidTrackerRemove_of_mem (h : t.Valid) {idx : Fin trackedPidsHashSize}
    (hk : occupancy t idx = some pid) :
    occupancy (pidTrackerRemove t pid) = remove home (occupancy t) idx ∧
      ∀ s, ((pidTrackerRemove t pid).entries s).isActive = true →
        ((pidTrackerRemove t pid).entries s).isTracked = true := by
  have hf := (pidTrackerFind_eq_some_iff h).mpr hk
  rw [pidTrackerFind] at hf
  rw [pidTrackerRemove, pidTrackerRemoveFrom_eq, hf, remove, ← occupancy_deactivate]
  refine occupancy_rehashFrom (fun {s s' pid'} h₁ h₂ => ?_) (setEntry_tracked h.tracked (by simp))
    idx 1 _
  rw [occupancy_deactivate] at h₁ h₂
  have hcl : ∀ {s}, clear (occupancy t) idx s = some pid' → occupancy t s = some pid' := by
    intro s hs
    by_cases e : s = idx
    · simp [e] at hs
    · rwa [clear_of_ne e] at hs
  exact h.wellFormed.inj (hcl h₁) (hcl h₂)

theorem pidTrackerRemove_valid (h : t.Valid) : (pidTrackerRemove t pid).Valid := by
  by_cases hk : Mem (occupancy t) pid
  · obtain ⟨idx, hidx⟩ := hk
    obtain ⟨hocc, htr⟩ := pidTrackerRemove_of_mem h hidx
    exact ⟨by rw [hocc]; exact h.wellFormed.remove idx, htr⟩
  · rw [pidTrackerRemove_of_not_mem h hk]
    exact h

/-! ### The abstract set and the refinement -/

/-- What the tracker is for: a set of at most `MAX_TRACKED_PIDS` pids. -/
structure PidSet where
  pids : Finset Int32
  card_le : pids.card ≤ maxTrackedPids

def PidSet.empty : PidSet := ⟨∅, by simp⟩

/-- Add a pid unless the set is full. -/
def PidSet.add (S : PidSet) (pid : Int32) : PidSet × Bool :=
  if pid ∈ S.pids then (S, true)
  else if hlt : S.pids.card < maxTrackedPids then
    (⟨insert pid S.pids, (Finset.card_insert_le _ _).trans hlt⟩, true)
  else (S, false)

def PidSet.remove (S : PidSet) (pid : Int32) : PidSet :=
  ⟨S.pids.erase pid, (Finset.card_erase_le).trans S.card_le⟩

/-- The calls of the tracker. -/
inductive PidOp where
  | add (pid ppid : Int32)
  | remove (pid : Int32)
  | isTracked (pid : Int32)

/-- One call: the next table, and the answer of the calls that have one. -/
def PidTracker.step (t : PidTracker) : PidOp → PidTracker × Option Bool
  | .add pid ppid => ((pidTrackerAdd t pid ppid).1, some (pidTrackerAdd t pid ppid).2)
  | .remove pid => (pidTrackerRemove t pid, none)
  | .isTracked pid => (t, some (pidTrackerIsTracked t pid))

def PidSet.step (S : PidSet) : PidOp → PidSet × Option Bool
  | .add pid _ => ((S.add pid).1, some (S.add pid).2)
  | .remove pid => (S.remove pid, none)
  | .isTracked pid => (S, some (decide (pid ∈ S.pids)))

def PidTracker.run (t : PidTracker) : List PidOp → PidTracker × List (Option Bool)
  | [] => (t, [])
  | op :: ops => (((t.step op).1.run ops).1, (t.step op).2 :: ((t.step op).1.run ops).2)

def PidSet.run (S : PidSet) : List PidOp → PidSet × List (Option Bool)
  | [] => (S, [])
  | op :: ops => (((S.step op).1.run ops).1, (S.step op).2 :: ((S.step op).1.run ops).2)

/-- The simulation relation: a valid table that stores exactly the pids of the set. -/
structure Simulates (t : PidTracker) (S : PidSet) : Prop where
  valid : t.Valid
  mem : ∀ pid, pid ∈ S.pids ↔ Mem (occupancy t) pid

variable {S : PidSet}

section

variable (h : Simulates t S)
include h

theorem Simulates.add (pid ppid : Int32) :
    Simulates (pidTrackerAdd t pid ppid).1 (S.add pid).1 ∧
      (pidTrackerAdd t pid ppid).2 = (S.add pid).2 := by
  by_cases hk : Mem (occupancy t) pid
  · rw [pidTrackerAdd_of_mem h.valid hk, PidSet.add, if_pos ((h.mem pid).mpr hk)]
    exact ⟨h, rfl⟩
  · have hvalid : (pidTrackerAdd t pid ppid).1.Valid := pidTrackerAdd_valid h.valid
    rw [pidTrackerAdd_of_not_mem ((pidTrackerFind_eq_none_iff h.valid).mpr hk)] at hvalid ⊢
    rw [PidSet.add, if_neg (mt (h.mem pid).mp hk)]
    -- the set has room exactly when the table has a hole
    have hroom : (∃ s, occupancy t s = none) ↔ S.pids.card < maxTrackedPids :=
      h.valid.wellFormed.exists_hole_iff h.mem
    cases hp : probe (isHole (occupancy t)) (home pid) with
    | none =>
      have hfull : ¬ ∃ s, occupancy t s = none := fun ⟨s, hs⟩ => by
        simpa [hs] using isHole_eq_false.mp (probe_eq_none_iff.mp hp s)
      rw [dif_neg (mt hroom.mpr hfull)]
      exact ⟨h, rfl⟩
    | some s =>
      have hs : occupancy t s = none := isHole_eq_true.mp (probe_eq_some_iff.mp hp).1
      rw [dif_pos (hroom.mp ⟨s, hs⟩)]
      rw [hp] at hvalid
      refine ⟨⟨hvalid, fun pid' => ?_⟩, rfl⟩
      rw [occupancy_fill, mem_put_iff hs, Finset.mem_insert, h.mem]

theorem Simulates.remove (pid : Int32) :
    Simulates (pidTrackerRemove t pid) (S.remove pid) := by
  refine ⟨pidTrackerRemove_valid h.valid, fun pid' => ?_⟩
  rw [PidSet.remove, Finset.mem_erase, h.mem]
  by_cases hk : Mem (occupancy t) pid
  · obtain ⟨idx, hidx⟩ := hk
    rw [(pidTrackerRemove_of_mem h.valid hidx).1, h.valid.wellFormed.mem_remove_iff hidx, and_comm]
  · rw [pidTrackerRemove_of_not_mem h.valid hk]
    refine ⟨fun hp => hp.2, fun hp => ⟨?_, hp⟩⟩
    rintro rfl
    exact hk hp

theorem Simulates.isTracked (pid : Int32) :
    pidTrackerIsTracked t pid = decide (pid ∈ S.pids) := by
  rw [Bool.eq_iff_iff, pidTrackerIsTracked_iff h.valid, decide_eq_true_iff, h.mem]

/-- One call on related states gives related states and the same answer. -/
theorem Simulates.step (op : PidOp) :
    Simulates (t.step op).1 (S.step op).1 ∧ (t.step op).2 = (S.step op).2 := by
  cases op with
  | add pid ppid =>
    obtain ⟨h₁, h₂⟩ := h.add pid ppid
    exact ⟨h₁, congrArg some h₂⟩
  | remove pid => exact ⟨h.remove pid, rfl⟩
  | isTracked pid => exact ⟨h, congrArg some (h.isTracked pid)⟩

theorem Simulates.run (ops : List PidOp) :
    Simulates (t.run ops).1 (S.run ops).1 ∧ (t.run ops).2 = (S.run ops).2 := by
  induction ops generalizing t S with
  | nil => exact ⟨h, rfl⟩
  | cons op ops ih =>
    obtain ⟨hs, hans⟩ := h.step op
    obtain ⟨hr, hanss⟩ := ih hs
    exact ⟨hr, congrArg₂ List.cons hans hanss⟩

end

theorem simulates_init (filters : List String) (mode : FilterMode) (target : Int32) :
    Simulates (pidTrackerInit filters mode target) PidSet.empty := by
  refine ⟨pidTrackerInit_valid filters mode target, fun pid => ?_⟩
  simp [PidSet.empty, Mem, pidTrackerInit, zeroEntry]

/-- **The tracker refines a bounded set.** For every sequence of calls on a fresh tracker,
every answer is the answer of a set of at most `MAX_TRACKED_PIDS` pids, membership of every
pid is the set's, every stored pid is found where it is stored, and no pid is stored
twice. -/
theorem pidTracker_refines_pidSet (filters : List String) (mode : FilterMode) (target : Int32)
    (ops : List PidOp) :
    let t := ((pidTrackerInit filters mode target).run ops).1
    let S := (PidSet.empty.run ops).1
    ((pidTrackerInit filters mode target).run ops).2 = (PidSet.empty.run ops).2 ∧
      (∀ pid, pidTrackerIsTracked t pid = decide (pid ∈ S.pids)) ∧
      (∀ s, (t.entries s).isActive = true → pidTrackerFind t (t.entries s).pid = some s) ∧
      ∀ s s', (t.entries s).isActive = true → (t.entries s').isActive = true →
        (t.entries s).pid = (t.entries s').pid → s = s' := by
  obtain ⟨h, hans⟩ := (simulates_init filters mode target).run ops
  refine ⟨hans, h.isTracked, fun s hs => ?_, fun s s' hs hs' he => ?_⟩
  · exact (pidTrackerFind_eq_some_iff h.valid).mpr (occupancy_eq_some_iff.mpr ⟨hs, rfl⟩)
  · exact h.valid.wellFormed.inj (occupancy_eq_some_iff.mpr ⟨hs, he⟩)
      (occupancy_eq_some_iff.mpr ⟨hs', rfl⟩)

end AgentSight.Bpf
