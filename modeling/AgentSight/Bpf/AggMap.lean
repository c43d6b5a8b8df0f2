import AgentSight.Lib.KeyedSum
import AgentSight.Lib.Transition
import Mathlib.Data.List.TakeWhile

/-!
# The aggregation map and its flushes

`event_agg_map` is written by BPF programs on every CPU (`update_agg_map` of
`bpf/process_ext/bpf_common.h` and its copy in `agg_path_event`) and drained by the one
userspace thread (`flush_agg_map` and `flush_pid_from_agg_map` of
`bpf/process_ext/map_flush.h`). Each call of a map helper, each atomic add and each group of
plain stores is one step, and the steps of the CPUs and of the thread interleave freely.

A BPF program that has looked an element up holds a pointer to it. An element is known here
by its `slot`: deleting a key frees the slot, a later insertion of any key may take it, and an
add through an old pointer lands in whatever the slot holds by then.

`conserved` is the account of the map: over every run in which no step loses an update or
prints an entry it cannot delete, what was printed and what the map holds is what the updates
added. `AggState.Admits` is that condition, read off the state before the step.
-/

namespace AgentSight.Bpf

open KeyedSum Transition List

/-! ### The map -/

def maxAggEntries : ℕ := 16384

/-- The size of `to_delete` in `flush_pid_from_agg_map`. -/
def maxToDelete : ℕ := 256

structure AggKey where
  pid : UInt32
  eventType : UInt32
  detail : List UInt8
  deriving DecidableEq

structure AggValue where
  count : UInt64
  totalBytes : UInt64
  firstTs : UInt64
  lastTs : UInt64
  comm : List UInt8
  extra : List UInt8
  deriving DecidableEq

structure AggEntry where
  key : AggKey
  slot : ℕ
  value : AggValue
  deriving DecidableEq

/-- The entries in the order in which `bpf_map_get_next_key` walks them. -/
structure AggMap where
  entries : List AggEntry
  keys_nodup : (entries.map AggEntry.key).Nodup
  slots_nodup : (entries.map AggEntry.slot).Nodup

namespace AggMap

def empty : AggMap := ⟨[], nodup_nil, nodup_nil⟩

/-- `bpf_map_lookup_elem`. -/
def lookup (m : AggMap) (key : AggKey) : Option AggEntry := m.entries.find? (·.key = key)

/-- What a flush that comes to the key prints: an entry that is still there and counts
something. -/
def printable (m : AggMap) (key : AggKey) : Bool := (m.lookup key).any (·.value.count > 0)

/-- `bpf_map_get_next_key`: the key after `key`, the first one when `key` is absent. -/
def getNextKey (m : AggMap) (key : AggKey) : Option AggKey :=
  match m.entries.dropWhile (·.key ≠ key) with
  | [] => m.entries.head?.map AggEntry.key
  | _ :: rest => rest.head?.map AggEntry.key

/-- `bpf_map_delete_elem`. -/
def delete (m : AggMap) (key : AggKey) : AggMap where
  entries := m.entries.filter (·.key ≠ key)
  keys_nodup := m.keys_nodup.sublist (filter_sublist.map _)
  slots_nodup := m.slots_nodup.sublist (filter_sublist.map _)

@[simp] theorem entries_delete (m : AggMap) (key : AggKey) :
    (m.delete key).entries = m.entries.filter (·.key ≠ key) := rfl

/-- Write through a pointer to the element of `slot`. -/
def modifySlot (m : AggMap) (slot : ℕ) (f : AggValue → AggValue) : AggMap where
  entries := m.entries.map fun e => if e.slot = slot then { e with value := f e.value } else e
  keys_nodup := by
    convert m.keys_nodup using 1
    rw [map_map]
    exact map_congr_left fun e _ => by simp only [Function.comp]; split <;> rfl
  slots_nodup := by
    convert m.slots_nodup using 1
    rw [map_map]
    exact map_congr_left fun e _ => by simp only [Function.comp]; split <;> rfl

/-- The entries with one more, at some place of the walk. -/
def insertedEntries (m : AggMap) (e : AggEntry) (pos : ℕ) : List AggEntry :=
  m.entries.take pos ++ e :: m.entries.drop pos

theorem insertedEntries_perm (m : AggMap) (e : AggEntry) (pos : ℕ) :
    (m.insertedEntries e pos).Perm (e :: m.entries) := by
  have h : (m.insertedEntries e pos).Perm (e :: (m.entries.take pos ++ m.entries.drop pos)) :=
    perm_middle
  rwa [take_append_drop] at h

/-- `bpf_map_update_elem` with `BPF_NOEXIST`, where it succeeds. -/
def insert (m : AggMap) (e : AggEntry) (pos : ℕ) (hkey : e.key ∉ m.entries.map AggEntry.key)
    (hslot : e.slot ∉ m.entries.map AggEntry.slot) : AggMap where
  entries := m.insertedEntries e pos
  keys_nodup := by
    rw [((m.insertedEntries_perm e pos).map _).nodup_iff]
    exact nodup_cons.mpr ⟨hkey, m.keys_nodup⟩
  slots_nodup := by
    rw [((m.insertedEntries_perm e pos).map _).nodup_iff]
    exact nodup_cons.mpr ⟨hslot, m.slots_nodup⟩

end AggMap

/-! ### The programs -/

/-- One call of `update_agg_map(key, count, bytes)`. `agg_path_event` is the same code with
its own `count` and `bytes`, and a path that it stores in `extra`. -/
structure AggUpdate where
  key : AggKey
  count : UInt64
  bytes : UInt64
  extra : Option (List UInt8)
  deriving DecidableEq

def updateAggMap (key : AggKey) (count bytes : UInt64) : AggUpdate := ⟨key, count, bytes, none⟩

/-- `new_val`. -/
def AggUpdate.newVal (u : AggUpdate) (now : UInt64) (comm : List UInt8) : AggValue where
  count := u.count
  totalBytes := u.bytes
  firstTs := now
  lastTs := now
  comm := comm
  extra := u.extra.getD []

/-- How far a CPU is in an update. -/
inductive UpdatePhase where
  | idle
  /-- The lookup found the element of this slot; `count` is to be added. -/
  | found (u : AggUpdate) (slot : ℕ)
  /-- `count` was added; `bytes` is to be added. -/
  | counted (u : AggUpdate) (slot : ℕ)
  /-- Both were added; `last_ts`, `comm` and `extra` are to be stored. -/
  | summed (u : AggUpdate) (slot : ℕ)
  /-- The lookup found nothing; the new value is to be inserted. -/
  | missing (u : AggUpdate)
  deriving DecidableEq

/-- How far the userspace thread is in a flush. -/
inductive FlushPhase where
  | idle
  /-- `flush_agg_map` at the head of its loop. -/
  | walk (key : AggKey)
  | read (nextKey : AggKey)
  /-- `flush_agg_map` has printed the entry and is about to delete it. -/
  | delete (nextKey : AggKey)
  /-- `flush_pid_from_agg_map` at the head of its first loop. -/
  | walkPid (targetPid : UInt32) (key : AggKey) (toDelete : List AggKey)
  | readPid (targetPid : UInt32) (nextKey : AggKey) (toDelete : List AggKey)
  /-- The second loop: what is left of `to_delete`. -/
  | deletePid (toDelete : List AggKey)
  deriving DecidableEq

/-- The keys the flush under way has still to delete. -/
def FlushPhase.toDelete : FlushPhase → List AggKey
  | .delete nextKey => [nextKey]
  | .walkPid _ _ toDelete => toDelete
  | .readPid _ _ toDelete => toDelete
  | .deletePid toDelete => toDelete
  | _ => []

structure AggState where
  aggMap : AggMap
  aggOverflowCount : ℕ
  cpus : ℕ → UpdatePhase
  flush : FlushPhase
  /-- The calls of `print_summary_json`. -/
  printed : List (AggKey × AggValue)
  /-- Bookkeeping: what each atomic add and each insertion added, in order. -/
  updated : List (AggKey × ℕ × ℕ)
  /-- Bookkeeping: what the flush under way has printed and is going to delete. -/
  awaiting : List (AggKey × AggValue)

inductive AggAction where
  | lookup (cpu : ℕ) (u : AggUpdate)
  | addCount (cpu : ℕ)
  | addBytes (cpu : ℕ)
  | stamp (cpu : ℕ) (now : UInt64) (comm : List UInt8)
  | insert (cpu : ℕ) (now : UInt64) (comm : List UInt8) (slot pos : ℕ)
  | flushAggMap
  | flushPidFromAggMap (targetPid : UInt32)
  | flushStep

/-- The key `{}` from which both walks start. -/
def zeroKey : AggKey := ⟨0, 0, []⟩

/-- The two sums an entry keeps. -/
def AggValue.sums (v : AggValue) : ℕ × ℕ := (v.count.toNat, v.totalBytes.toNat)

def AggUpdate.sums (u : AggUpdate) : ℕ × ℕ := (u.count.toNat, u.bytes.toNat)

namespace AggState

/-- Start with some content, which is what earlier updates left, and nothing under way. -/
def init (m : AggMap) : AggState where
  aggMap := m
  aggOverflowCount := 0
  cpus := fun _ => .idle
  flush := .idle
  printed := []
  updated := m.entries.map fun e => (e.key, e.value.sums)
  awaiting := []

def setCpu (s : AggState) (cpu : ℕ) (phase : UpdatePhase) : AggState :=
  { s with cpus := Function.update s.cpus cpu phase }

def doLookup (s : AggState) (cpu : ℕ) (u : AggUpdate) : AggState :=
  match s.aggMap.lookup u.key with
  | some e => s.setCpu cpu (.found u e.slot)
  | none => s.setCpu cpu (.missing u)

/-- A write of the CPU through its pointer. -/
def writeSlot (s : AggState) (cpu slot : ℕ) (phase : UpdatePhase) (f : AggValue → AggValue) :
    AggState :=
  { s.setCpu cpu phase with aggMap := s.aggMap.modifySlot slot f }

def record (s : AggState) (key : AggKey) (added : ℕ × ℕ) : AggState :=
  { s with updated := s.updated ++ [(key, added)] }

/-- `__sync_fetch_and_add(&val->count, count)`. -/
def addCount (u : AggUpdate) (v : AggValue) : AggValue := { v with count := v.count + u.count }

/-- `if (bytes) __sync_fetch_and_add(&val->total_bytes, bytes)`. -/
def addBytes (u : AggUpdate) (v : AggValue) : AggValue :=
  if u.bytes ≠ 0 then { v with totalBytes := v.totalBytes + u.bytes } else v

/-- The plain stores that end an update of a present key. -/
def stamp (u : AggUpdate) (now : UInt64) (comm : List UInt8) (v : AggValue) : AggValue :=
  { v with lastTs := now, comm, extra := u.extra.getD v.extra }

/-- The insertion. A present key or a full map fails, which only the overflow counter sees. -/
def doInsert (s : AggState) (cpu : ℕ) (u : AggUpdate) (now : UInt64) (comm : List UInt8)
    (slot pos : ℕ) : Option AggState :=
  if hkey : u.key ∉ s.aggMap.entries.map AggEntry.key then
    if s.aggMap.entries.length < maxAggEntries then
      if hslot : slot ∉ s.aggMap.entries.map AggEntry.slot then
        some ({ s.setCpu cpu .idle with
          aggMap := s.aggMap.insert ⟨u.key, slot, u.newVal now comm⟩ pos hkey hslot }.record
            u.key u.sums)
      else none
    else some { s.setCpu cpu .idle with aggOverflowCount := s.aggOverflowCount + 1 }
  else some { s.setCpu cpu .idle with aggOverflowCount := s.aggOverflowCount + 1 }

/-- The next call that the flush under way makes. -/
def flushStep (s : AggState) : Option AggState :=
  match s.flush with
  | .idle => none
  | .walk key =>
    match s.aggMap.getNextKey key with
    | some nextKey => some { s with flush := .read nextKey }
    | none => some { s with flush := .idle }
  | .read nextKey =>
    match s.aggMap.lookup nextKey with
    | some e =>
      if e.value.count > 0 then
        some { s with
          printed := s.printed ++ [(nextKey, e.value)]
          awaiting := s.awaiting ++ [(nextKey, e.value)]
          flush := .delete nextKey }
      else some { s with flush := .walk nextKey }
    | none => some { s with flush := .walk nextKey }
  | .delete nextKey =>
    some { s with
      aggMap := s.aggMap.delete nextKey
      awaiting := s.awaiting.filter (·.1 ≠ nextKey)
      flush := .walk nextKey }
  | .walkPid targetPid key toDelete =>
    match s.aggMap.getNextKey key with
    | some nextKey =>
      if nextKey.pid = targetPid then
        some { s with flush := .readPid targetPid nextKey toDelete }
      else some { s with flush := .walkPid targetPid nextKey toDelete }
    | none => some { s with flush := .deletePid toDelete }
  | .readPid targetPid nextKey toDelete =>
    let room := toDelete.length < maxToDelete
    let toDelete := if room then toDelete ++ [nextKey] else toDelete
    match s.aggMap.lookup nextKey with
    | some e =>
      if e.value.count > 0 then
        some { s with
          printed := s.printed ++ [(nextKey, e.value)]
          awaiting := if room then s.awaiting ++ [(nextKey, e.value)] else s.awaiting
          flush := .walkPid targetPid nextKey toDelete }
      else some { s with flush := .walkPid targetPid nextKey toDelete }
    | none => some { s with flush := .walkPid targetPid nextKey toDelete }
  | .deletePid [] => some { s with flush := .idle }
  | .deletePid (key :: toDelete) =>
    some { s with
      aggMap := s.aggMap.delete key
      awaiting := s.awaiting.filter (·.1 ≠ key)
      flush := .deletePid toDelete }

/-- One atomic step of a CPU or of the flushing thread. -/
def step (s : AggState) : AggAction → Option AggState
  | .lookup cpu u =>
    match s.cpus cpu with
    | .idle => some (s.doLookup cpu u)
    | _ => none
  | .addCount cpu =>
    match s.cpus cpu with
    | .found u slot =>
      some ((s.writeSlot cpu slot (.counted u slot) (addCount u)).record u.key (u.count.toNat, 0))
    | _ => none
  | .addBytes cpu =>
    match s.cpus cpu with
    | .counted u slot =>
      some ((s.writeSlot cpu slot (.summed u slot) (addBytes u)).record u.key (0, u.bytes.toNat))
    | _ => none
  | .stamp cpu now comm =>
    match s.cpus cpu with
    | .summed u slot => some (s.writeSlot cpu slot .idle (stamp u now comm))
    | _ => none
  | .insert cpu now comm slot pos =>
    match s.cpus cpu with
    | .missing u => s.doInsert cpu u now comm slot pos
    | _ => none
  | .flushAggMap => if s.flush = .idle then some { s with flush := .walk zeroKey } else none
  | .flushPidFromAggMap targetPid =>
    if s.flush = .idle then some { s with flush := .walkPid targetPid zeroKey [] } else none
  | .flushStep => s.flushStep

/-! ### The account -/

def heldSums (s : AggState) (key : AggKey) : ℕ × ℕ :=
  total AggEntry.key (fun e => e.value.sums) s.aggMap.entries key

def printedSums (s : AggState) (key : AggKey) : ℕ × ℕ :=
  total Prod.fst (fun p => p.2.sums) s.printed key

def updatedSums (s : AggState) (key : AggKey) : ℕ × ℕ := total Prod.fst Prod.snd s.updated key

def awaitingSums (s : AggState) (key : AggKey) : ℕ × ℕ :=
  total Prod.fst (fun p => p.2.sums) s.awaiting key

/-- What was printed and what the map holds is what the updates added, and, while a flush is
under way, what it has printed and not yet deleted. -/
def Conserved (s : AggState) : Prop :=
  ∀ key, s.printedSums key + s.heldSums key = s.updatedSums key + s.awaitingSums key

end AggState

/-! ### The condition -/

/-- The add finds its element: the pointer's slot still holds the key, and the counter has
room for what is added. -/
def UpdatePhase.Lands (m : AggMap) : UpdatePhase → Prop
  | .found u slot => ∃ e ∈ m.entries, e.slot = slot ∧ e.key = u.key ∧
      e.value.count.toNat + u.count.toNat < 2 ^ 64
  | .counted u slot => ∃ e ∈ m.entries, e.slot = slot ∧ e.key = u.key ∧
      e.value.totalBytes.toNat + u.bytes.toNat < 2 ^ 64
  | _ => True

instance (m : AggMap) : ∀ phase : UpdatePhase, Decidable (phase.Lands m)
  | .found u slot => inferInstanceAs (Decidable (∃ e ∈ m.entries, e.slot = slot ∧
      e.key = u.key ∧ e.value.count.toNat + u.count.toNat < 2 ^ 64))
  | .counted u slot => inferInstanceAs (Decidable (∃ e ∈ m.entries, e.slot = slot ∧
      e.key = u.key ∧ e.value.totalBytes.toNat + u.bytes.toNat < 2 ^ 64))
  | .idle => isTrue trivial
  | .summed _ _ => isTrue trivial
  | .missing _ => isTrue trivial

/-- The flush of a pid prints an entry only while it has room to remember its key, and a key
is deleted only while the map holds for it what the flush printed. -/
def FlushPhase.Settled (s : AggState) : FlushPhase → Prop
  | .delete nextKey => s.heldSums nextKey = s.awaitingSums nextKey
  | .readPid _ nextKey toDelete =>
      s.aggMap.printable nextKey = true → toDelete.length < maxToDelete
  | .deletePid (key :: _) => s.heldSums key = s.awaitingSums key
  | _ => True

instance (s : AggState) : ∀ phase : FlushPhase, Decidable (phase.Settled s)
  | .delete nextKey => inferInstanceAs (Decidable (s.heldSums nextKey = s.awaitingSums nextKey))
  | .readPid _ nextKey toDelete => inferInstanceAs (Decidable
      (s.aggMap.printable nextKey = true → toDelete.length < maxToDelete))
  | .deletePid (key :: _) => inferInstanceAs (Decidable (s.heldSums key = s.awaitingSums key))
  | .idle => isTrue trivial
  | .walk _ => isTrue trivial
  | .read _ => isTrue trivial
  | .walkPid _ _ _ => isTrue trivial
  | .deletePid [] => isTrue trivial

namespace AggState

def Admits (s : AggState) : AggAction → Prop
  | .addCount cpu => (s.cpus cpu).Lands s.aggMap
  | .addBytes cpu => (s.cpus cpu).Lands s.aggMap
  | .flushStep => s.flush.Settled s
  | _ => True

instance (s : AggState) : ∀ a, Decidable (s.Admits a)
  | .addCount cpu => inferInstanceAs (Decidable ((s.cpus cpu).Lands s.aggMap))
  | .addBytes cpu => inferInstanceAs (Decidable ((s.cpus cpu).Lands s.aggMap))
  | .flushStep => inferInstanceAs (Decidable (s.flush.Settled s))
  | .lookup _ _ => isTrue trivial
  | .stamp _ _ _ => isTrue trivial
  | .insert _ _ _ _ _ => isTrue trivial
  | .flushAggMap => isTrue trivial
  | .flushPidFromAggMap _ => isTrue trivial

/-! ### What the map operations do to the sums -/

variable {e : AggEntry}

theorem held_modifySlot (m : AggMap) (f : AggValue → AggValue)
    (he : e ∈ m.entries) {gain : ℕ × ℕ} (gains : (f e.value).sums = e.value.sums + gain)
    (key : AggKey) :
    total AggEntry.key (fun e => e.value.sums) (m.modifySlot e.slot f).entries key =
      total AggEntry.key (fun e => e.value.sums) m.entries key +
        if e.key = key then gain else 0 := by
  rw [← total_slot m.slots_nodup he gain key]
  refine total_map _ _ _ _ (fun b => by split <;> rfl) (fun b hb => ?_) key
  by_cases hslot : b.slot = e.slot
  · obtain rfl : b = e := inj_on_of_nodup_map m.slots_nodup hb he hslot
    simpa using gains
  · simp [hslot]

theorem held_modifySlot_of_sums (m : AggMap) (slot : ℕ) (f : AggValue → AggValue)
    (keeps : ∀ v, (f v).sums = v.sums) (key : AggKey) :
    total AggEntry.key (fun e => e.value.sums) (m.modifySlot slot f).entries key =
      total AggEntry.key (fun e => e.value.sums) m.entries key := by
  have hgain := total_map AggEntry.key (fun e => e.value.sums) (fun _ => 0)
    (fun e : AggEntry => if e.slot = slot then { e with value := f e.value } else e)
    (fun b => by split <;> rfl) (l := m.entries) (fun b _ => by split <;> simp [keeps]) key
  rw [total_zero] at hgain
  exact hgain

variable (u : AggUpdate)

theorem sums_addCount (v : AggValue)
    (room : v.count.toNat + u.count.toNat < 2 ^ 64) :
    (addCount u v).sums = v.sums + (u.count.toNat, 0) := by
  have hsum : (v.count + u.count).toNat = v.count.toNat + u.count.toNat := by
    rw [UInt64.toNat_add]
    omega
  simp [addCount, AggValue.sums, hsum]

theorem sums_addBytes (v : AggValue)
    (room : v.totalBytes.toNat + u.bytes.toNat < 2 ^ 64) :
    (addBytes u v).sums = v.sums + (0, u.bytes.toNat) := by
  by_cases hbytes : u.bytes = 0
  · simp [addBytes, AggValue.sums, hbytes]
  · have hsum : (v.totalBytes + u.bytes).toNat = v.totalBytes.toNat + u.bytes.toNat := by
      rw [UInt64.toNat_add]
      omega
    simp [addBytes, AggValue.sums, hbytes, hsum]

@[simp] theorem sums_stamp (now : UInt64) (comm : List UInt8) (v : AggValue) :
    (stamp u now comm v).sums = v.sums := rfl

@[simp] theorem sums_newVal (now : UInt64) (comm : List UInt8) :
    (u.newVal now comm).sums = u.sums := rfl

section Account

variable {s s' : AggState}

section

variable (h : s.Conserved)
include h

/-- The equation only reads the map's entries and the three logs. -/
theorem Conserved.congr (haggMap : s'.aggMap = s.aggMap)
    (hprinted : s'.printed = s.printed) (hupdated : s'.updated = s.updated)
    (hawaiting : s'.awaiting = s.awaiting) : s'.Conserved := by
  intro key
  have hkey := h key
  simp only [printedSums, heldSums, updatedSums, awaitingSums] at hkey ⊢
  rw [haggMap, hprinted, hupdated, hawaiting]
  exact hkey

/-- Adding to the map what the log of the updates gains. -/
theorem Conserved.add {u : AggKey} {added : ℕ × ℕ}
    (hheld : ∀ key, s'.heldSums key = s.heldSums key + if u = key then added else 0)
    (hprinted : s'.printed = s.printed) (hupdated : s'.updated = s.updated ++ [(u, added)])
    (hawaiting : s'.awaiting = s.awaiting) : s'.Conserved := by
  intro key
  have hkey := h key
  simp only [printedSums, updatedSums, awaitingSums] at hkey ⊢
  rw [hheld, hprinted, hupdated, hawaiting, total_append, ← add_assoc, hkey]
  exact add_right_comm _ _ _

/-- Printing what the flush is going to delete. -/
theorem Conserved.print {p : AggKey × AggValue}
    (haggMap : s'.aggMap = s.aggMap) (hprinted : s'.printed = s.printed ++ [p])
    (hupdated : s'.updated = s.updated) (hawaiting : s'.awaiting = s.awaiting ++ [p]) :
    s'.Conserved := by
  intro key
  have hkey := h key
  simp only [printedSums, heldSums, updatedSums, awaitingSums] at hkey ⊢
  rw [haggMap, hprinted, hupdated, hawaiting, total_append, total_append, add_right_comm, hkey,
    add_assoc]

/-- Deleting a key whose entry is what the flush printed. -/
theorem Conserved.delete {k : AggKey}
    (settled : s.heldSums k = s.awaitingSums k) (haggMap : s'.aggMap = s.aggMap.delete k)
    (hprinted : s'.printed = s.printed) (hupdated : s'.updated = s.updated)
    (hawaiting : s'.awaiting = s.awaiting.filter (·.1 ≠ k)) : s'.Conserved := by
  intro key
  have hkey := h key
  simp only [printedSums, heldSums, updatedSums, awaitingSums] at hkey settled ⊢
  rw [haggMap, hprinted, hupdated, hawaiting, AggMap.entries_delete, total_filter_ne,
    total_filter_ne]
  by_cases hk : key = k
  · subst hk
    rw [settled] at hkey
    simpa using add_right_cancel hkey
  · simpa [hk] using hkey

/-- The add through a pointer that still points at its key. -/
theorem Conserved.writeSlot_record (cpu : ℕ) (phase : UpdatePhase)
    {f : AggValue → AggValue} (he : e ∈ s.aggMap.entries) {gain : ℕ × ℕ}
    (gains : (f e.value).sums = e.value.sums + gain) :
    ((s.writeSlot cpu e.slot phase f).record e.key gain).Conserved :=
  h.add (held_modifySlot s.aggMap f he gains) rfl rfl rfl

end

/-- What a step of a flush does: it moves on, it prints an entry and remembers the key, or it
deletes a key whose entry is settled. -/
theorem flushStep_cases (hok : s.flush.Settled s) (hs : s.flushStep = some s') :
    (∃ phase, s' = { s with flush := phase } ∧ s.flush.toDelete ⊆ phase.toDelete) ∨
    (∃ p phase, s' = { s with
        printed := s.printed ++ [p], awaiting := s.awaiting ++ [p], flush := phase } ∧
      p.1 ∈ phase.toDelete ∧ s.flush.toDelete ⊆ phase.toDelete) ∨
    (∃ key phase, s' = { s with
        aggMap := s.aggMap.delete key, awaiting := s.awaiting.filter (·.1 ≠ key),
        flush := phase } ∧
      s.heldSums key = s.awaitingSums key ∧ s.flush.toDelete ⊆ key :: phase.toDelete) := by
  cases hflush : s.flush with
  | idle => simp [AggState.flushStep, hflush] at hs
  | walk key =>
    left
    simp only [AggState.flushStep, hflush] at hs
    split at hs
    · next nextKey _ => exact ⟨.read nextKey, (Option.some.inj hs).symm, nil_subset _⟩
    · exact ⟨.idle, (Option.some.inj hs).symm, nil_subset _⟩
  | read nextKey =>
    simp only [AggState.flushStep, hflush] at hs
    split at hs
    · next e _ =>
      split at hs
      · exact .inr (.inl ⟨(nextKey, e.value), .delete nextKey, (Option.some.inj hs).symm,
          mem_singleton_self _, nil_subset _⟩)
      · exact .inl ⟨.walk nextKey, (Option.some.inj hs).symm, nil_subset _⟩
    · exact .inl ⟨.walk nextKey, (Option.some.inj hs).symm, nil_subset _⟩
  | delete nextKey =>
    simp only [AggState.flushStep, hflush] at hs
    rw [hflush] at hok
    exact .inr (.inr ⟨nextKey, .walk nextKey, (Option.some.inj hs).symm, hok, Subset.refl _⟩)
  | walkPid targetPid key toDelete =>
    left
    simp only [AggState.flushStep, hflush] at hs
    split at hs
    · next nextKey _ =>
      split at hs
      · exact ⟨.readPid targetPid nextKey toDelete, (Option.some.inj hs).symm, Subset.refl _⟩
      · exact ⟨.walkPid targetPid nextKey toDelete, (Option.some.inj hs).symm, Subset.refl _⟩
    · exact ⟨.deletePid toDelete, (Option.some.inj hs).symm, Subset.refl _⟩
  | readPid targetPid nextKey toDelete =>
    simp only [AggState.flushStep, hflush] at hs
    rw [hflush] at hok
    have hgrows : toDelete ⊆
        if toDelete.length < maxToDelete then toDelete ++ [nextKey] else toDelete := by
      split
      · exact subset_append_left _ _
      · exact Subset.refl _
    split at hs
    · next e he =>
      split at hs
      · next hcount =>
        -- the guard leaves room, so the printed key is remembered
        have hroom : toDelete.length < maxToDelete :=
          hok (by simpa [AggMap.printable, he] using hcount)
        simp only [hroom, if_true] at hs
        exact .inr (.inl ⟨(nextKey, e.value), .walkPid targetPid nextKey (toDelete ++ [nextKey]),
          (Option.some.inj hs).symm, by simp [FlushPhase.toDelete],
          subset_append_left _ _⟩)
      · exact .inl ⟨.walkPid targetPid nextKey _, (Option.some.inj hs).symm, hgrows⟩
    · exact .inl ⟨.walkPid targetPid nextKey _, (Option.some.inj hs).symm, hgrows⟩
  | deletePid toDelete =>
    rw [hflush] at hok
    cases toDelete with
    | nil =>
      simp only [AggState.flushStep, hflush] at hs
      exact .inl ⟨.idle, (Option.some.inj hs).symm, Subset.refl _⟩
    | cons key toDelete =>
      simp only [AggState.flushStep, hflush] at hs
      exact .inr (.inr ⟨key, .deletePid toDelete, (Option.some.inj hs).symm, hok,
        Subset.refl _⟩)

/-- The account and, with it, that only the flush under way awaits a deletion. -/
structure Sound (s : AggState) : Prop where
  conserved : s.Conserved
  pending : ∀ p ∈ s.awaiting, p.1 ∈ s.flush.toDelete

theorem Sound.flushStep (h : s.Sound) (hok : s.flush.Settled s) (hs : s.flushStep = some s') :
    s'.Sound := by
  obtain ⟨phase, rfl, hkeeps⟩ | ⟨p, phase, rfl, hp, hkeeps⟩ |
    ⟨key, phase, rfl, hsettled, hkeeps⟩ := flushStep_cases hok hs
  · exact ⟨h.conserved.congr rfl rfl rfl rfl, fun q hq => hkeeps (h.pending q hq)⟩
  · refine ⟨h.conserved.print rfl rfl rfl rfl, fun q hq => ?_⟩
    obtain hq | hq := mem_append.mp hq
    · exact hkeeps (h.pending q hq)
    · rwa [mem_singleton.mp hq]
  · refine ⟨h.conserved.delete hsettled rfl rfl rfl rfl, fun q hq => ?_⟩
    obtain ⟨hq, hne⟩ := mem_filter.mp hq
    have hmem := mem_cons.mp (hkeeps (h.pending q hq))
    exact hmem.resolve_left (by simpa using hne)

theorem Sound.doInsert (h : s.Sound) {cpu slot pos : ℕ} {u : AggUpdate} {now : UInt64}
    {comm : List UInt8} (hs : s.doInsert cpu u now comm slot pos = some s') :
    s'.Sound := by
  unfold AggState.doInsert at hs
  split at hs
  · split at hs
    · split at hs
      · next hkey _ hslot =>
        obtain rfl := Option.some.inj hs
        refine ⟨h.conserved.add (fun key => ?_) rfl rfl rfl, h.pending⟩
        have hperm := total_perm AggEntry.key (fun e => e.value.sums)
          (s.aggMap.insertedEntries_perm ⟨u.key, slot, u.newVal now comm⟩ pos) key
        rw [total_cons, add_comm] at hperm
        exact hperm
      · cases hs
    · obtain rfl := Option.some.inj hs
      exact ⟨h.conserved.congr rfl rfl rfl rfl, h.pending⟩
  · obtain rfl := Option.some.inj hs
    exact ⟨h.conserved.congr rfl rfl rfl rfl, h.pending⟩

theorem Sound.step {a : AggAction} (h : s.Sound) (hok : s.Admits a) (hs : s.step a = some s') :
    s'.Sound := by
  cases a with
  | lookup cpu u =>
    simp only [AggState.step] at hs
    split at hs
    · obtain rfl := Option.some.inj hs
      unfold doLookup
      split <;> exact ⟨h.conserved.congr rfl rfl rfl rfl, h.pending⟩
    · cases hs
  | addCount cpu =>
    simp only [AggState.step] at hs
    split at hs
    · next u slot hphase =>
      obtain rfl := Option.some.inj hs
      simp only [Admits, hphase] at hok
      obtain ⟨e, he, rfl, hkey, hroom⟩ := hok
      rw [← hkey]
      exact ⟨h.conserved.writeSlot_record cpu _ he (sums_addCount u e.value hroom), h.pending⟩
    · cases hs
  | addBytes cpu =>
    simp only [AggState.step] at hs
    split at hs
    · next u slot hphase =>
      obtain rfl := Option.some.inj hs
      simp only [Admits, hphase] at hok
      obtain ⟨e, he, rfl, hkey, hroom⟩ := hok
      rw [← hkey]
      exact ⟨h.conserved.writeSlot_record cpu _ he (sums_addBytes u e.value hroom), h.pending⟩
    · cases hs
  | stamp cpu now comm =>
    simp only [AggState.step] at hs
    split at hs
    · next u slot _ =>
      obtain rfl := Option.some.inj hs
      refine ⟨fun key => ?_, h.pending⟩
      have hheld := held_modifySlot_of_sums s.aggMap slot (stamp u now comm)
        (sums_stamp u now comm) key
      have hkey := h.conserved key
      unfold heldSums at hkey ⊢
      rw [← hheld] at hkey
      exact hkey
    · cases hs
  | insert cpu now comm slot pos =>
    simp only [AggState.step] at hs
    split at hs
    · exact h.doInsert hs
    · cases hs
  | flushAggMap | flushPidFromAggMap targetPid =>
    simp only [AggState.step] at hs
    split at hs
    · next hidle =>
      obtain rfl := Option.some.inj hs
      have hpending := h.pending
      rw [hidle] at hpending
      exact ⟨h.conserved.congr rfl rfl rfl rfl, hpending⟩
    · cases hs
  | flushStep => exact h.flushStep hok hs

theorem updatedSums_init (m : AggMap) (key : AggKey) :
    (AggState.init m).updatedSums key = (AggState.init m).heldSums key := by
  simp only [updatedSums, heldSums, AggState.init, total, map_map]
  rfl

theorem sound_init (m : AggMap) : (AggState.init m).Sound := by
  refine ⟨fun key => ?_, fun p hp => by cases hp⟩
  have hprinted : (AggState.init m).printedSums key = 0 := rfl
  have hawaiting : (AggState.init m).awaitingSums key = 0 := rfl
  rw [hprinted, hawaiting, updatedSums_init, zero_add, add_zero]

end Account

/-- **The account of the aggregation map.** From any content, over any interleaving of any
number of updates with the flushes, as long as every step is admitted: what was printed and
what the map holds is what the updates added and what the flush under way is about to delete,
for each key; and with no flush under way, printed and held together are what was added. -/
theorem conserved {m : AggMap} {s : AggState}
    (h : Reaches AggState.step AggState.Admits (AggState.init m) s) :
    (∀ key, s.printedSums key + s.heldSums key = s.updatedSums key + s.awaitingSums key) ∧
      (s.flush = .idle → ∀ key, s.printedSums key + s.heldSums key = s.updatedSums key) := by
  have hsound : s.Sound :=
    h.invariant (sound_init m) fun _ _ _ hs hok hstep => hs.step hok hstep
  refine ⟨hsound.conserved, fun hidle key => ?_⟩
  have hnone : s.awaiting = [] := by
    apply eq_nil_iff_forall_not_mem.mpr
    intro p hp
    have hmem := hsound.pending p hp
    rw [hidle] at hmem
    cases hmem
  have hkey := hsound.conserved key
  rwa [show s.awaitingSums key = 0 by simp [awaitingSums, hnone]] at hkey

/-! ### Two runs -/

def writeKey (n : UInt8) : AggKey := ⟨7, 15, [102, 100, 61, n]⟩

/-- Two CPUs race to insert a key, a third one updates it while the flush of its pid starts,
and the flush prints and deletes it. -/
theorem conserved_of_two_cpus :
    ∃ s, Reaches AggState.step AggState.Admits (AggState.init AggMap.empty) s ∧
      s.flush = .idle ∧ s.printedSums (writeKey 49) = (2, 30) ∧
      ∀ key, s.printedSums key + s.heldSums key = s.updatedSums key := by
  obtain ⟨s, hs, hidle, hprinted⟩ := exists_reaches_of_run
    (Q := fun s : AggState => s.flush = .idle ∧ s.printedSums (writeKey 49) = (2, 30))
    AggState.step AggState.Admits (AggState.init AggMap.empty)
    [.lookup 0 (updateAggMap (writeKey 49) 1 10), .lookup 1 (updateAggMap (writeKey 49) 1 99),
      .insert 0 5 [115, 104] 0 0, .insert 1 6 [115, 104] 1 0,
      .lookup 2 (updateAggMap (writeKey 49) 1 20), .flushPidFromAggMap 7, .addCount 2,
      .addBytes 2, .flushStep, .flushStep, .stamp 2 8 [115, 104], .flushStep, .flushStep,
      .flushStep]
    (by decide +kernel)
  exact ⟨s, hs, hidle, hprinted, (conserved hs).2 hidle⟩

/-! ### Flushes that nothing disturbs -/

section Undisturbed

variable {s₀ s : AggState}

variable (m : AggMap)

theorem lookup_key (he : e ∈ m.entries) : m.lookup e.key = some e := by
  obtain ⟨e', he'⟩ : ∃ e', m.lookup e.key = some e' := by
    apply Option.isSome_iff_exists.mp
    rw [AggMap.lookup, find?_isSome]
    exact ⟨e, he, by simp⟩
  have hmem : e' ∈ m.entries := mem_of_find?_eq_some he'
  have hkey : e'.key = e.key := by simpa using find?_some he'
  rw [he', inj_on_of_nodup_map m.keys_nodup hmem he hkey]

theorem getNextKey_of_split {pre rest : List AggEntry}
    (h : m.entries = pre ++ e :: rest) : m.getNextKey e.key = rest.head?.map AggEntry.key := by
  have hne : ∀ b ∈ pre, decide (b.key ≠ e.key) = true := by
    intro b hb
    have hnodup := m.keys_nodup
    rw [h, map_append, nodup_append] at hnodup
    exact decide_eq_true
      (hnodup.2.2 _ (mem_map_of_mem hb) _ (mem_map_of_mem mem_cons_self))
  have hdrop : m.entries.dropWhile (·.key ≠ e.key) = e :: rest := by
    rw [h, dropWhile_append_of_pos hne]
    simp
  rw [AggMap.getNextKey, hdrop]

theorem getNextKey_of_absent {key : AggKey} (h : key ∉ m.entries.map AggEntry.key) :
    m.getNextKey key = m.entries.head?.map AggEntry.key := by
  have hdrop : m.entries.dropWhile (·.key ≠ key) = [] := by
    rw [dropWhile_eq_nil_iff]
    intro e he
    exact decide_eq_true fun heq => h (heq ▸ mem_map_of_mem he)
  rw [AggMap.getNextKey, hdrop]

/-- The first loop of `flush_pid_from_agg_map` prints every entry of the pid and remembers
the first ones. -/
theorem walkPid_run (pre : List AggEntry) (h : Reaches AggState.step always s₀ s)
    {targetPid : UInt32}
    {cursor : AggKey} {toDelete : List AggKey} {rest : List AggEntry}
    (hflush : s.flush = .walkPid targetPid cursor toDelete)
    (hsplit : s.aggMap.entries = pre ++ rest)
    (hcursor : s.aggMap.getNextKey cursor = rest.head?.map AggEntry.key)
    (hcount : ∀ e ∈ rest, 0 < e.value.count) (hpid : ∀ e ∈ rest, e.key.pid = targetPid)
    (hroom : toDelete.length ≤ maxToDelete) :
    ∃ s', Reaches AggState.step always s₀ s' ∧ s'.aggMap = s.aggMap ∧ s'.updated = s.updated ∧
      s'.printed = s.printed ++ rest.map (fun e => (e.key, e.value)) ∧
      s'.flush = .deletePid ((toDelete ++ rest.map AggEntry.key).take maxToDelete) := by
  induction rest generalizing s cursor toDelete pre with
  | nil =>
    refine ⟨{ s with flush := .deletePid toDelete }, h.tail (a := .flushStep) trivial ?_, rfl,
      rfl, by simp, ?_⟩
    · simp [AggState.step, AggState.flushStep, hflush, hcursor]
    · simp [take_of_length_le hroom]
  | cons e rest ih =>
    have he : e ∈ s.aggMap.entries := by simp [hsplit]
    have hread : s.step .flushStep =
        some { s with flush := .readPid targetPid e.key toDelete } := by
      simp [AggState.step, AggState.flushStep, hflush, hcursor, hpid e mem_cons_self]
    have hlookup := lookup_key s.aggMap he
    have hpos := hcount e mem_cons_self
    have hprint : AggState.step { s with flush := .readPid targetPid e.key toDelete } .flushStep =
        some { s with
          printed := s.printed ++ [(e.key, e.value)]
          awaiting := if toDelete.length < maxToDelete then s.awaiting ++ [(e.key, e.value)]
            else s.awaiting
          flush := .walkPid targetPid e.key
            (if toDelete.length < maxToDelete then toDelete ++ [e.key] else toDelete) } := by
      simp [AggState.step, AggState.flushStep, hlookup, hpos]
    have hnext : s.aggMap.getNextKey e.key = rest.head?.map AggEntry.key :=
      getNextKey_of_split s.aggMap hsplit
    have hlen : (if toDelete.length < maxToDelete then toDelete ++ [e.key]
        else toDelete).length ≤ maxToDelete := by
      split
      · simpa using by omega
      · exact hroom
    obtain ⟨t, ht, haggMap, hupdated, hprinted, hflush'⟩ :=
      ih (pre ++ [e]) ((h.tail trivial hread).tail trivial hprint) rfl
        (by simp [hsplit]) hnext (fun b hb => hcount b (mem_cons_of_mem _ hb))
        (fun b hb => hpid b (mem_cons_of_mem _ hb)) hlen
    refine ⟨t, ht, haggMap, hupdated, by simp [hprinted], ?_⟩
    rw [hflush']
    by_cases hlt : toDelete.length < maxToDelete
    · simp [hlt]
    · rw [if_neg hlt, take_append_of_le_length (by omega),
        take_append_of_le_length (by omega)]

/-- The second loop deletes what the first one remembered. -/
theorem deletePid_run (h : Reaches AggState.step always s₀ s) {toDelete : List AggKey}
    (hflush : s.flush = .deletePid toDelete) :
    ∃ s', Reaches AggState.step always s₀ s' ∧ s'.flush = .idle ∧ s'.updated = s.updated ∧
      s'.printed = s.printed ∧
      s'.aggMap.entries = s.aggMap.entries.filter (·.key ∉ toDelete) := by
  induction toDelete generalizing s with
  | nil =>
    refine ⟨{ s with flush := .idle }, h.tail (a := .flushStep) trivial ?_, rfl, rfl, rfl, ?_⟩
    · simp [AggState.step, AggState.flushStep, hflush]
    · simp
  | cons key toDelete ih =>
    have hdelete : s.step .flushStep = some { s with
        aggMap := s.aggMap.delete key
        awaiting := s.awaiting.filter (·.1 ≠ key)
        flush := .deletePid toDelete } := by
      simp [AggState.step, AggState.flushStep, hflush]
    obtain ⟨t, ht, hidle, hupdated, hprinted, hentries⟩ := ih (h.tail trivial hdelete) rfl
    refine ⟨t, ht, hidle, hupdated, hprinted, ?_⟩
    rw [hentries]
    simp [not_or, Bool.and_comm]

/-- `flush_agg_map` prints and deletes every entry. -/
theorem walk_run (h : Reaches AggState.step always s₀ s) {cursor : AggKey}
    {rest : List AggEntry} (hflush : s.flush = .walk cursor) (hrest : s.aggMap.entries = rest)
    (habsent : cursor ∉ s.aggMap.entries.map AggEntry.key)
    (hcount : ∀ e ∈ rest, 0 < e.value.count) :
    ∃ s', Reaches AggState.step always s₀ s' ∧ s'.flush = .idle ∧ s'.updated = s.updated ∧
      s'.printed = s.printed ++ rest.map (fun e => (e.key, e.value)) := by
  have hcursor := getNextKey_of_absent s.aggMap habsent
  induction rest generalizing s cursor with
  | nil =>
    refine ⟨{ s with flush := .idle }, h.tail (a := .flushStep) trivial ?_, rfl, rfl, by simp⟩
    simp [AggState.step, AggState.flushStep, hflush, hcursor, hrest]
  | cons e rest ih =>
    have he : e ∈ s.aggMap.entries := by simp [hrest]
    have hlookup := lookup_key s.aggMap he
    have hpos := hcount e mem_cons_self
    have hread : s.step .flushStep = some { s with flush := .read e.key } := by
      simp [AggState.step, AggState.flushStep, hflush, hcursor, hrest]
    have hprint : AggState.step { s with flush := .read e.key } .flushStep = some { s with
          printed := s.printed ++ [(e.key, e.value)]
          awaiting := s.awaiting ++ [(e.key, e.value)]
          flush := .delete e.key } := by
      simp [AggState.step, AggState.flushStep, hlookup, hpos]
    have hleft : (s.aggMap.delete e.key).entries = rest := by
      have hnodup := s.aggMap.keys_nodup
      rw [hrest, map_cons, nodup_cons] at hnodup
      have hkeep : ∀ b ∈ rest, decide (b.key ≠ e.key) = true := by
        intro b hb
        exact decide_eq_true fun heq => hnodup.1 (heq ▸ mem_map_of_mem hb)
      rw [AggMap.entries_delete, hrest, filter_cons_of_neg (by simp),
        filter_eq_self.mpr hkeep]
    have hgone : e.key ∉ (s.aggMap.delete e.key).entries.map AggEntry.key := by
      simp
    obtain ⟨t, ht, hidle, hupdated, hprinted⟩ :=
      ih (((h.tail trivial hread).tail trivial hprint).tail (a := .flushStep) trivial rfl) rfl
        hleft hgone (fun b hb => hcount b (mem_cons_of_mem _ hb))
        (getNextKey_of_absent _ hgone)
    exact ⟨t, ht, hidle, hupdated, by simp [hprinted]⟩

/-- What is left when the first entries are dropped by key. -/
theorem filter_notMem_take (n : ℕ) :
    m.entries.filter (·.key ∉ (m.entries.take n).map AggEntry.key) = m.entries.drop n := by
  have hnodup := m.keys_nodup
  rw [← take_append_drop n m.entries, map_append, nodup_append] at hnodup
  have hdropped : (m.entries.take n).filter (·.key ∉ (m.entries.take n).map AggEntry.key) = [] := by
    rw [filter_eq_nil_iff]
    intro e he
    have hmem : e.key ∈ (m.entries.take n).map AggEntry.key := mem_map_of_mem he
    simp only [hmem, not_true_eq_false, decide_false, Bool.false_eq_true, not_false_eq_true]
  have hkept : (m.entries.drop n).filter
      (·.key ∉ (m.entries.take n).map AggEntry.key) = m.entries.drop n := by
    rw [filter_eq_self]
    intro e he
    exact decide_eq_true fun hmem => hnodup.2.2 _ hmem _ (mem_map_of_mem he) rfl
  have hsplit := filter_append
    (p := fun e : AggEntry => e.key ∉ (m.entries.take n).map AggEntry.key)
    (m.entries.take n) (m.entries.drop n)
  rwa [take_append_drop, hdropped, hkept] at hsplit

/-- A pid's exit flush followed by a periodic flush, from a map that holds entries of the pid
alone: the entries beyond the first `maxToDelete` are printed twice. -/
theorem printed_twice (targetPid : UInt32)
    (hzero : zeroKey ∉ m.entries.map AggEntry.key)
    (hcount : ∀ e ∈ m.entries, 0 < e.value.count)
    (hpid : ∀ e ∈ m.entries, e.key.pid = targetPid) :
    ∃ s, Reaches AggState.step always (AggState.init m) s ∧ s.flush = .idle ∧
      s.updated = (AggState.init m).updated ∧
      s.printed = (m.entries ++ m.entries.drop maxToDelete).map fun e => (e.key, e.value) := by
  have hstart : Reaches AggState.step always (AggState.init m)
      { AggState.init m with flush := .walkPid targetPid zeroKey [] } :=
    Reaches.refl.tail (a := .flushPidFromAggMap targetPid) trivial rfl
  obtain ⟨s, hs, haggMap, hupdated, hprinted, hflush⟩ :=
    walkPid_run [] hstart rfl rfl (getNextKey_of_absent m hzero) hcount hpid (Nat.zero_le _)
  obtain ⟨t, ht, htidle, htupdated, htprinted, htentries⟩ := deletePid_run hs hflush
  have hleft : t.aggMap.entries = m.entries.drop maxToDelete := by
    rw [htentries, haggMap, nil_append, ← map_take]
    exact filter_notMem_take m maxToDelete
  have hwalk : Reaches AggState.step always (AggState.init m)
      { t with flush := .walk zeroKey } := by
    refine ht.tail (a := .flushAggMap) trivial ?_
    simp [AggState.step, htidle]
  have hgone : zeroKey ∉ (m.entries.drop maxToDelete).map AggEntry.key := by
    intro hmem
    exact hzero ((drop_sublist _ _).map _ |>.subset hmem)
  obtain ⟨u, hu, huidle, huupdated, huprinted⟩ :=
    walk_run hwalk rfl hleft (by rw [hleft]; exact hgone)
      (fun e he => hcount e (mem_of_mem_drop he))
  refine ⟨u, hu, huidle, huupdated.trans (htupdated.trans hupdated), ?_⟩
  rw [huprinted, htprinted, hprinted, map_append]
  rfl

end Undisturbed

/-- As many keys of one pid as `to_delete` holds, and one more. -/
def crowdedEntry (n : ℕ) : AggEntry :=
  ⟨⟨7, 15, [102, 100, 61, UInt8.ofNat (n / 256), UInt8.ofNat n]⟩, n, ⟨1, 0, 0, 0, [], []⟩⟩

theorem crowdedEntry_key_injective {n m : ℕ} (hn : n < 257) (hm : m < 257)
    (h : (crowdedEntry n).key = (crowdedEntry m).key) : n = m := by
  simp only [crowdedEntry, AggKey.mk.injEq, cons.injEq, true_and, and_true] at h
  have hhigh := congrArg UInt8.toNat h.1
  have hlow := congrArg UInt8.toNat h.2
  simp only [UInt8.toNat_ofNat'] at hhigh hlow
  omega

def crowded : AggMap where
  entries := (List.range 257).map crowdedEntry
  keys_nodup := by
    rw [map_map]
    refine Nodup.map_on (fun n hn m hm h => ?_) nodup_range
    exact crowdedEntry_key_injective (mem_range.mp hn) (mem_range.mp hm) h
  slots_nodup := by
    rw [map_map]
    exact nodup_range.map fun _ _ h => h

/-- With 257 keys of a pid in the map and no update at all, the flush at the pid's exit prints
the last one without deleting it, and the next periodic flush prints it again. -/
theorem last_key_printed_twice :
    ∃ s, Reaches AggState.step always (AggState.init crowded) s ∧ s.flush = .idle ∧
      s.printedSums (crowdedEntry 256).key = (2, 0) ∧
      s.updatedSums (crowdedEntry 256).key = (1, 0) := by
  have hmem : crowdedEntry 256 ∈ crowded.entries :=
    mem_map_of_mem (mem_range.mpr (by omega))
  obtain ⟨s, hs, hidle, hupdated, hprinted⟩ := printed_twice crowded 7
    (by simp [crowded, zeroKey, crowdedEntry]) (by simp [crowded, crowdedEntry])
    (by simp [crowded, crowdedEntry])
  have hheld := total_eq_weight (fun e : AggEntry => e.value.sums) crowded.keys_nodup hmem
  have hlog : ∀ l : List AggEntry,
      total Prod.fst (fun p => p.2.sums) (l.map fun e => (e.key, e.value)) (crowdedEntry 256).key =
      total AggEntry.key (fun e => e.value.sums) l (crowdedEntry 256).key := by
    intro l
    simp only [total, map_map]
    rfl
  refine ⟨s, hs, hidle, ?_, ?_⟩
  · rw [printedSums, hprinted, hlog, total_append, hheld]
    rfl
  · rw [updatedSums, hupdated]
    exact (updatedSums_init crowded _).trans hheld

end AggState

end AgentSight.Bpf
