import AgentSight.Bpf.Lines

/-!
# The tracked pids of the kernel

The BPF programs look pids up in the map `tracked_pids`, which userspace fills beside its own
tracker: `seed_initial_pids` from the command line, `handle_event` as processes start and exit.
The two hold the same pids in every run, as long as every pid is positive, since the map is not
told of any other. The kernel's pids are. A pid of the command line is checked as a `long` and then
cut to a `pid_t`, so it need not be.
-/

namespace AgentSight.Bpf

open LinearProbing Transition ProcessTracer

/-! ### The map -/

/-- `tracked_pids`: a hash map of `MAX_TRACKED_PIDS` entries. -/
structure TrackedPidsMap where
  keys : Finset UInt32
  card_le : keys.card ≤ maxTrackedPids

namespace TrackedPidsMap

def empty : TrackedPidsMap := ⟨∅, Nat.zero_le _⟩

/-- `bpf_map_update_elem` with `BPF_ANY`, which fails for a new key where the map is full. -/
def updateElem (map : TrackedPidsMap) (key : UInt32) : TrackedPidsMap :=
  if hroom : map.keys.card < maxTrackedPids then
    ⟨insert key map.keys, (Finset.card_insert_le _ _).trans hroom⟩
  else map

/-- `bpf_map_delete_elem`. -/
def deleteElem (map : TrackedPidsMap) (key : UInt32) : TrackedPidsMap :=
  ⟨map.keys.erase key, Finset.card_erase_le.trans map.card_le⟩

end TrackedPidsMap

def addTrackedPidToBpf (map : TrackedPidsMap) (pid : Int32) : TrackedPidsMap :=
  if pid ≤ 0 then map else map.updateElem pid.toUInt32

def removeTrackedPidFromBpf (map : TrackedPidsMap) (pid : Int32) : TrackedPidsMap :=
  if pid ≤ 0 then map else map.deleteElem pid.toUInt32

/-! ### Seeds -/

structure SeedPid where
  pid : Int32
  ppid : Int32
  deriving DecidableEq

def maxSeedPids : ℕ := 4096

/-- `strtol` with a look at `errno`: `none` for a number out of range, and where there is none. -/
def strtolChecked (s : List UInt8) : Option (ℤ × List UInt8) :=
  let (negative, rest) := strtolSign (s.dropWhile isSpaceByte)
  let digits := rest.takeWhile isDigitByte
  let n : ℤ := digits.foldl (fun (n : ℤ) b => 10 * n + (b.toNat - 48 : ℕ)) 0
  let n := if negative then -n else n
  if digits = [] ∨ n < -2 ^ 63 ∨ 2 ^ 63 ≤ n then none else some (n, rest.dropWhile isDigitByte)

/-- The numbers are `long`, and cut to a `pid_t` at the end. -/
def parseSeedPidArg (arg : List UInt8) : Option SeedPid :=
  match strtolChecked arg with
  | none => none
  | some (pid, rest) =>
    if pid ≤ 0 then none
    else
      match rest with
      | [] => some ⟨Int32.ofInt pid, 0⟩
      | 58 :: rest =>
        match strtolChecked rest with
        | some (ppid, []) => if ppid < 0 then none else some ⟨Int32.ofInt pid, Int32.ofInt ppid⟩
        | _ => none
      | _ => none

/-- `parse_arg` on a `--seed-pid` option; `none` where the program ends with its usage. -/
def parseArgSeedPid (seeds : List SeedPid) (arg : List UInt8) : Option (List SeedPid) :=
  if maxSeedPids ≤ seeds.length then none else (parseSeedPidArg arg).map (seeds ++ [·])

def parseSeedPids (args : List (List UInt8)) : Option (List SeedPid) :=
  args.foldlM parseArgSeedPid []

/-- One round of `seed_initial_pids`, which counts the pids that are new. -/
def seedPid (state : PidTracker × TrackedPidsMap × ℕ) (seed : SeedPid) :
    PidTracker × TrackedPidsMap × ℕ :=
  let (tracker, map, trackedCount) := state
  let alreadyTracked := pidTrackerIsTracked tracker seed.pid
  let (tracker, added) := pidTrackerAdd tracker seed.pid seed.ppid
  if added && !alreadyTracked then (tracker, addTrackedPidToBpf map seed.pid, trackedCount + 1)
  else (tracker, map, trackedCount)

def seedInitialPids (tracker : PidTracker) (map : TrackedPidsMap) (seeds : List SeedPid) :
    PidTracker × TrackedPidsMap × ℕ := seeds.foldl seedPid (tracker, map, 0)

/-! ### Events -/

/-- What `handle_event` does to the map. -/
def TrackedPidsMap.handleEvent (map : TrackedPidsMap) (t : ProcessTracer) (e : Event)
    (sid : Int32) : TrackedPidsMap :=
  match e.body with
  | .exit => removeTrackedPidFromBpf map e.pid
  | .exec _ =>
    if shouldTrackEventProcess t.env t.tracker e.comm.bytes e.pid e.ppid sid then
      addTrackedPidToBpf map e.pid
    else
      match t.tracker.filterMode with
      | .filter => map
      | .proc => addTrackedPidToBpf map e.pid
      | .all => map
  | _ => map

/-- The tracer and the map of the kernel. -/
structure TrackedPids where
  tracer : ProcessTracer
  map : TrackedPidsMap

namespace TrackedPids

/-- `main` up to its loop: the tracker is seeded before the programs are attached. -/
def start (env : Env) (commandFilters : List String) (filterMode : FilterMode)
    (targetPid : Int32) (seeds : List SeedPid) : TrackedPids :=
  let (tracker, map, _) :=
    seedInitialPids (pidTrackerInit commandFilters filterMode targetPid) .empty seeds
  ⟨.init env tracker, map⟩

/-- An event, with what `getsid` returns for its pid. -/
def step (s : TrackedPids) (a : Event × Int32) : Option TrackedPids :=
  some ⟨s.tracer.handleEvent a.1 a.2, s.map.handleEvent s.tracer a.1 a.2⟩

/-- The map and the tracker hold the same pids. -/
def Agree (s : TrackedPids) : Prop :=
  ∀ pid : Int32, pid.toUInt32 ∈ s.map.keys ↔ Mem (occupancy s.tracer.tracker) pid

end TrackedPids

/-! ### Adding and removing in both -/

/-- The map holds the pids of a set that the tracker holds, too. -/
structure Mirrors (tracker : PidTracker) (map : TrackedPidsMap) (S : PidSet) : Prop where
  simulates : Simulates tracker S
  keys : map.keys = S.pids.image Int32.toUInt32

theorem toUInt32_injective : Function.Injective Int32.toUInt32 :=
  Function.LeftInverse.injective Int32.toInt32_toUInt32

namespace Mirrors

variable {tracker : PidTracker} {map : TrackedPidsMap} {S : PidSet} {pid ppid : Int32}

section

variable (h : Mirrors tracker map S)
include h

theorem card_eq : map.keys.card = S.pids.card := by
  rw [h.keys, Finset.card_image_of_injective _ toUInt32_injective]

theorem mem_keys (pid : Int32) :
    pid.toUInt32 ∈ map.keys ↔ Mem (occupancy tracker) pid := by
  rw [h.keys, toUInt32_injective.mem_finset_image, h.simulates.mem]

/-- A positive pid is added to both, or to neither where they are full. -/
theorem add (hpid : 0 < pid) (ppid : Int32) :
    Mirrors (pidTrackerAdd tracker pid ppid).1 (addTrackedPidToBpf map pid) (S.add pid).1 := by
  refine ⟨(h.simulates.add pid ppid).1, ?_⟩
  have hcard := h.card_eq
  rw [addTrackedPidToBpf, if_neg (Int32.not_le.mpr hpid), TrackedPidsMap.updateElem, PidSet.add]
  by_cases hmem : pid ∈ S.pids
  · split
    · have hkey : pid.toUInt32 ∈ map.keys := by
        rw [h.keys]
        exact Finset.mem_image_of_mem _ hmem
      exact (Finset.insert_eq_of_mem hkey).trans h.keys
    · exact h.keys
  · rw [if_neg hmem]
    by_cases hroom : S.pids.card < maxTrackedPids
    · rw [dif_pos hroom, dif_pos (hcard ▸ hroom)]
      change insert pid.toUInt32 map.keys = (insert pid S.pids).image Int32.toUInt32
      rw [Finset.image_insert, h.keys]
    · rw [dif_neg hroom, dif_neg (hcard ▸ hroom)]
      exact h.keys

theorem remove (hpid : 0 < pid) :
    Mirrors (pidTrackerRemove tracker pid) (removeTrackedPidFromBpf map pid) (S.remove pid) := by
  refine ⟨h.simulates.remove pid, ?_⟩
  rw [removeTrackedPidFromBpf, if_neg (Int32.not_le.mpr hpid)]
  change map.keys.erase pid.toUInt32 = (S.pids.erase pid).image Int32.toUInt32
  rw [h.keys, Finset.image_erase toUInt32_injective]

end

end Mirrors

/-! ### Seeding -/

section Seeding

variable {args : List (List UInt8)} {seeds : List SeedPid}

theorem length_foldlM_parseArgSeedPid {start : List SeedPid} (hstart : start.length ≤ maxSeedPids)
    (h : args.foldlM parseArgSeedPid start = some seeds) : seeds.length ≤ maxSeedPids := by
  induction args generalizing start with
  | nil =>
    cases h
    exact hstart
  | cons arg args ih =>
    obtain ⟨next, hnext, hrest⟩ := Option.bind_eq_some_iff.mp h
    refine ih ?_ hrest
    unfold parseArgSeedPid at hnext
    split at hnext
    · cases hnext
    · next hroom =>
      obtain ⟨seed, -, rfl⟩ := Option.map_eq_some_iff.mp hnext
      rw [List.length_append, List.length_singleton]
      omega

/-- The options fit their array. -/
theorem length_parseSeedPids (h : parseSeedPids args = some seeds) :
    seeds.length ≤ maxSeedPids := length_foldlM_parseArgSeedPid (Nat.zero_le _) h

/-- The tracker and the map after seeds that fit: the map has the positive ones. -/
structure Seeded (state : PidTracker × TrackedPidsMap × ℕ) (seeds : List SeedPid) (S : PidSet) :
    Prop where
  simulates : Simulates state.1 S
  pids : S.pids = (seeds.map SeedPid.pid).toFinset
  keys : state.2.1.keys = (S.pids.filter (0 < ·)).image Int32.toUInt32

theorem Seeded.mem_pids {state : PidTracker × TrackedPidsMap × ℕ} {S : PidSet} {pid : Int32}
    (h : Seeded state seeds S) : pid ∈ S.pids ↔ ∃ seed ∈ seeds, seed.pid = pid := by
  rw [h.pids, List.mem_toFinset, List.mem_map]

theorem Seeded.seedPid {state : PidTracker × TrackedPidsMap × ℕ} {S : PidSet}
    (h : Seeded state seeds S) (hroom : seeds.length < maxTrackedPids) (seed : SeedPid) :
    Seeded (Bpf.seedPid state seed) (seeds ++ [seed]) (S.add seed.pid).1 := by
  obtain ⟨tracker, map, trackedCount⟩ := state
  have hcard : S.pids.card < maxTrackedPids := by
    rw [h.pids]
    refine lt_of_le_of_lt (List.toFinset_card_le _) ?_
    rwa [List.length_map]
  have hadd : (S.add seed.pid).1.pids = insert seed.pid S.pids ∧ (S.add seed.pid).2 = true := by
    unfold PidSet.add
    split
    · next hmem => exact ⟨(Finset.insert_eq_of_mem hmem).symm, rfl⟩
    · exact ⟨rfl, rfl⟩
  obtain ⟨hsimulates, hadded⟩ := h.simulates.add seed.pid seed.ppid
  have htracked := h.simulates.isTracked seed.pid
  have hkeys : map.keys.card < maxTrackedPids := by
    have hkeys := h.keys
    rw [hkeys, Finset.card_image_of_injective _ toUInt32_injective]
    exact lt_of_le_of_lt (Finset.card_filter_le _ _) hcard
  refine ⟨?_, ?_, ?_⟩
  · unfold Bpf.seedPid
    dsimp only
    split <;> exact hsimulates
  · rw [hadd.1, h.pids, List.map_append, List.toFinset_append, Finset.union_comm]
    rfl
  · unfold Bpf.seedPid
    dsimp only at htracked ⊢
    rw [hadded, hadd.2, htracked, hadd.1]
    by_cases hmem : seed.pid ∈ S.pids
    · rw [Finset.insert_eq_of_mem hmem, decide_eq_true hmem]
      exact h.keys
    · rw [decide_eq_false hmem, Finset.filter_insert]
      change (addTrackedPidToBpf map seed.pid).keys = _
      unfold addTrackedPidToBpf
      by_cases hpos : 0 < seed.pid
      · rw [if_neg (Int32.not_le.mpr hpos), if_pos hpos, Finset.image_insert, ← h.keys,
          TrackedPidsMap.updateElem, dif_pos hkeys]
      · rw [if_pos (Int32.not_lt.mp hpos), if_neg hpos]
        exact h.keys

theorem exists_seeded (filters : List String) (mode : FilterMode) (target : Int32)
    (hlength : seeds.length ≤ maxTrackedPids) :
    ∃ S, Seeded (seedInitialPids (pidTrackerInit filters mode target) .empty seeds) seeds S := by
  induction seeds using List.reverseRecOn with
  | nil => exact ⟨.empty, simulates_init filters mode target, rfl, rfl⟩
  | append_singleton seeds seed ih =>
    rw [List.length_append, List.length_singleton] at hlength
    obtain ⟨S, hseeded⟩ := ih (by omega)
    have hnext := hseeded.seedPid (by omega) seed
    rw [seedInitialPids, List.foldl_append]
    exact ⟨_, hnext⟩

end Seeding

/-! ### Runs -/

theorem getFileOpenCount_tracker (t : ProcessTracer) (e : Event) (op : FileOp) :
    (t.getFileOpenCount e op).1.tracker = t.tracker := by
  have hcount (t : ProcessTracer) : (t.countOpen e op).1.tracker = t.tracker := by
    unfold countOpen
    dsimp only
    repeat' split
    all_goals rfl
  unfold getFileOpenCount
  dsimp only
  split
  · rfl
  · split
    · rfl
    · exact hcount _

/-- What an event does to the tracker. -/
theorem handleEvent_tracker (t : ProcessTracer) (e : Event) (sid : Int32) :
    (t.handleEvent e sid).tracker =
      match e.body with
      | .exit => pidTrackerRemove t.tracker e.pid
      | .exec _ =>
        if shouldTrackEventProcess t.env t.tracker e.comm.bytes e.pid e.ppid sid ||
            t.tracker.filterMode = .proc then
          (pidTrackerAdd t.tracker e.pid e.ppid).1
        else t.tracker
      | _ => t.tracker := by
  cases hbody : e.body with
  | exit =>
    simp only [handleEvent, hbody]
    split
    · rfl
    · split <;> rfl
  | exec filename =>
    simp only [handleEvent, hbody]
    by_cases htrack : shouldTrackEventProcess t.env t.tracker e.comm.bytes e.pid e.ppid sid = true
    · rw [htrack]
      rfl
    · rw [Bool.eq_false_of_not_eq_true htrack]
      cases t.tracker.filterMode <;> rfl
  | bashReadline command =>
    simp only [handleEvent, hbody]
    split <;> rfl
  | fileOperation op =>
    simp only [handleEvent, hbody]
    split
    · rfl
    · split
      · rfl
      · have hcount := getFileOpenCount_tracker t e op
        split <;> exact hcount
  | unknown type =>
    simp only [handleEvent, hbody]
    rfl

namespace TrackedPids

variable {s s' : TrackedPids} {a : Event × Int32}

/-- A process that starts or exits has a positive pid. -/
def OfProcess (_ : TrackedPids) (a : Event × Int32) : Prop :=
  match a.1.body with
  | .exec _ => 0 < a.1.pid
  | .exit => 0 < a.1.pid
  | _ => True

theorem step_mirrors {S : PidSet} (h : Mirrors s.tracer.tracker s.map S) (hpid : s.OfProcess a)
    (hstep : s.step a = some s') : ∃ S', Mirrors s'.tracer.tracker s'.map S' := by
  obtain ⟨e, sid⟩ := a
  cases hstep
  rw [handleEvent_tracker]
  unfold TrackedPidsMap.handleEvent
  unfold OfProcess at hpid
  cases hbody : e.body with
  | exit =>
    rw [hbody] at hpid
    exact ⟨_, h.remove hpid⟩
  | exec filename =>
    rw [hbody] at hpid
    by_cases htrack : shouldTrackEventProcess s.tracer.env s.tracer.tracker e.comm.bytes e.pid
        e.ppid sid = true
    · rw [htrack]
      exact ⟨_, h.add hpid e.ppid⟩
    · rw [Bool.eq_false_of_not_eq_true htrack]
      cases hmode : s.tracer.tracker.filterMode with
      | all => exact ⟨S, h⟩
      | proc => exact ⟨_, h.add hpid e.ppid⟩
      | filter => exact ⟨S, h⟩
  | bashReadline command => exact ⟨S, h⟩
  | fileOperation op => exact ⟨S, h⟩
  | unknown type => exact ⟨S, h⟩

section Start

variable (env : Env) (commandFilters : List String) (filterMode : FilterMode) (targetPid : Int32)
  {seeds : List SeedPid}

theorem start_agree_iff (hlength : seeds.length ≤ maxTrackedPids) :
    (start env commandFilters filterMode targetPid seeds).Agree ↔ ∀ seed ∈ seeds, 0 < seed.pid := by
  obtain ⟨S, hseeded⟩ := exists_seeded commandFilters filterMode targetPid hlength
  set s := start env commandFilters filterMode targetPid seeds
  have hkeys pid : pid.toUInt32 ∈ s.map.keys ↔ pid ∈ S.pids ∧ 0 < pid := by
    change pid.toUInt32 ∈ (seedInitialPids _ _ _).2.1.keys ↔ _
    rw [hseeded.keys, toUInt32_injective.mem_finset_image, Finset.mem_filter]
  have hheld pid : Mem (occupancy s.tracer.tracker) pid ↔ pid ∈ S.pids :=
    (hseeded.simulates.mem pid).symm
  simp only [Agree, hkeys, hheld, and_iff_left_iff_imp, hseeded.mem_pids]
  constructor
  · intro h seed hseed
    exact h seed.pid ⟨seed, hseed, rfl⟩
  · rintro h pid ⟨seed, hseed, rfl⟩
    exact h seed hseed

theorem agree_of_reaches (hlength : seeds.length ≤ maxTrackedPids)
    (hpos : ∀ seed ∈ seeds, 0 < seed.pid)
    (hs : Reaches step OfProcess (start env commandFilters filterMode targetPid seeds) s) :
    s.Agree := by
  obtain ⟨S, hseeded⟩ := exists_seeded commandFilters filterMode targetPid hlength
  have hstart : Mirrors (seedInitialPids (pidTrackerInit commandFilters filterMode targetPid) .empty
      seeds).1 (seedInitialPids (pidTrackerInit commandFilters filterMode targetPid) .empty
      seeds).2.1 S := by
    refine ⟨hseeded.simulates, hseeded.keys.trans ?_⟩
    rw [Finset.filter_true_of_mem]
    intro pid hpid
    obtain ⟨seed, hseed, rfl⟩ := hseeded.mem_pids.mp hpid
    exact hpos seed hseed
  obtain ⟨S', hmirrors⟩ : ∃ S', Mirrors s.tracer.tracker s.map S' :=
    hs.invariant (I := fun s => ∃ S, Mirrors s.tracer.tracker s.map S) ⟨S, hstart⟩
      fun _ _ _ ⟨_, h⟩ hok hstep => step_mirrors h hok hstep
  exact hmirrors.mem_keys

end Start

end TrackedPids

/-- **Seeded with positive pids, the map and the tracker hold the same pids after every event.**
Seeded with another, they differ from the start. -/
theorem trackedPids_agree (env : Env) (commandFilters : List String) (filterMode : FilterMode)
    (targetPid : Int32) (args : List (List UInt8)) :
    ∀ seeds ∈ parseSeedPids args,
      let s₀ := TrackedPids.start env commandFilters filterMode targetPid seeds
      (s₀.Agree ↔ ∀ seed ∈ seeds, 0 < seed.pid) ∧
        ((∀ seed ∈ seeds, 0 < seed.pid) → ∀ s : TrackedPids,
          Reaches TrackedPids.step TrackedPids.OfProcess s₀ s → s.Agree) := by
  intro seeds hseeds s₀
  have hlength := length_parseSeedPids hseeds
  exact ⟨TrackedPids.start_agree_iff _ _ _ _ hlength, fun hpos s hs =>
    TrackedPids.agree_of_reaches _ _ _ _ hlength hpos hs⟩

/-- A tracer that follows `claude` and was given the pid of one that runs. -/
def claudeTracer : TrackedPids := .start ⟨false, -1⟩ ["claude"] .filter 0 [⟨4242, 1⟩]

/-- A shell exits under it. -/
theorem trackedPids_agree_of_claude :
    (TrackedPids.mk (claudeTracer.tracer.handleEvent (FileOpenRun.shellEvent 5 .exit) 7)
      (claudeTracer.map.handleEvent claudeTracer.tracer
        (FileOpenRun.shellEvent 5 .exit) 7)).Agree :=
  (trackedPids_agree ⟨false, -1⟩ ["claude"] .filter 0 [bytesOf "4242:1".toList] [⟨4242, 1⟩]
    (by decide)).2 (by decide) _
    (.tail .refl (show 0 < 7 by decide) (a := (FileOpenRun.shellEvent 5 .exit, 7)) rfl)

/-- `--seed-pid 4294967296` passes the check and seeds pid 0. -/
theorem wide_seed_disagrees : ¬ ∀ seeds ∈ parseSeedPids [bytesOf "4294967296".toList],
    ∀ s : TrackedPids, Reaches TrackedPids.step always
      (.start ⟨false, -1⟩ ["claude"] .filter 0 seeds) s → s.Agree := by
  intro h
  have hseeds : parseSeedPids [bytesOf "4294967296".toList] = some [⟨0, 0⟩] := by decide
  have hpos := (TrackedPids.start_agree_iff _ _ _ _ (by decide)).mp (h _ hseeds _ .refl) ⟨0, 0⟩
    (List.mem_singleton_self _)
  exact absurd hpos (by decide)

end AgentSight.Bpf
