import AgentSight.Bridge.Protocol
import AgentSight.Lib.KeyedTable
import AgentSight.Lib.Retention

/-!
# The annotation store

What a client says of its own scopes is kept by `(kind, row id)` and bounded: the rows in a map,
and beside it the order in which their keys came, which eviction consumes. The two stay in step,
so the store is a log that retains its newest rows. It forgets the revision of a row that it
evicts, so a stream is replayed without effect as long as it fits, and an older revision of an
evicted row is taken for a new row.
-/

namespace AgentSight.Bridge

open KeyedTable Retention List

/-- `(row_kind, row_id)`. -/
abbrev AnnotationKey := AroRowKind × String

def AroAnnotation.key (note : AroAnnotation) : AnnotationKey :=
  (note.row.kind, note.row.rowId)

structure AnnotationStore where
  rows : List AroAnnotation
  order : List AnnotationKey
  maxRows : ℕ
  evicted : ℕ
  ignored : ℕ
  deriving DecidableEq

namespace AnnotationStore

def withMaxRows (maxRows : ℕ) : AnnotationStore := ⟨[], [], maxRows, 0, 0⟩

def get (s : AnnotationStore) (key : AnnotationKey) : Option AroAnnotation :=
  find AroAnnotation.key s.rows key

/-- The loop of `evict_overflow`, `order` being what it has not popped yet. -/
def evictFrom (s : AnnotationStore) : List AnnotationKey → AnnotationStore
  | [] => { s with order := [] }
  | oldest :: order =>
    if s.maxRows < s.rows.length then
      evictFrom { s with
        rows := delete AroAnnotation.key s.rows oldest
        evicted := if (s.get oldest).isSome then s.evicted + 1 else s.evicted } order
    else { s with order := oldest :: order }

def evictOverflow (s : AnnotationStore) : AnnotationStore := s.evictFrom s.order

/-- The insertion of `upsert`, with the room made for it. -/
def store (s : AnnotationStore) (note : AroAnnotation) : AnnotationStore :=
  let rows := KeyedTable.upsert AroAnnotation.key s.rows note fun _ => note
  let order := if (s.get note.key).isNone then s.order ++ [note.key] else s.order
  evictOverflow { s with rows, order }

/-- The flag tells whether the store changed. -/
def upsert (s : AnnotationStore) (note : AroAnnotation) : AnnotationStore × Bool :=
  match s.get note.key with
  | some existing =>
    if note.row.revision ≤ existing.row.revision then
      ({ s with ignored := s.ignored + 1 }, false)
    else (s.store note, true)
  | none => (s.store note, true)

/-- The store after a stream. -/
def applyAll (s : AnnotationStore) (stream : List AroAnnotation) : AnnotationStore :=
  stream.foldl (fun s note => (s.upsert note).1) s

/-! ### The invariant -/

/-- The order lists the keys of the rows, each once, and the rows fit. -/
structure Kept (s : AnnotationStore) : Prop where
  order_eq : s.order = s.rows.map AroAnnotation.key
  nodup : (s.rows.map AroAnnotation.key).Nodup
  length_le : s.rows.length ≤ s.maxRows

variable {s : AnnotationStore} {a r : AroAnnotation} {k : AnnotationKey} {maxRows : ℕ}
  {stream front mid : List AroAnnotation}

theorem unique_of_nodup {rows : List AroAnnotation} (h : (rows.map AroAnnotation.key).Nodup) :
    Unique AroAnnotation.key rows :=
  fun _ ha _ hb hkey => inj_on_of_nodup_map h ha hb hkey

theorem kept_withMaxRows (maxRows : ℕ) : (withMaxRows maxRows).Kept :=
  ⟨rfl, nodup_nil, Nat.zero_le _⟩

theorem Kept.get_eq_some (h : s.Kept) : s.get k = some r ↔ r ∈ s.rows ∧ r.key = k :=
  find_eq_some (unique_of_nodup h.nodup)

theorem get_eq_none : s.get k = none ↔ ∀ r ∈ s.rows, r.key ≠ k := by
  simp [get, find]

theorem Kept.mem_order (h : s.Kept) : k ∈ s.order ↔ (s.get k).isSome = true := by
  rw [h.order_eq, mem_map]
  exact (find_isSome AroAnnotation.key s.rows k).symm

/-! ### What an upsert does -/

/-- Eviction keeps the newest rows that the bound allows, and counts the others. -/
theorem evictFrom_eq {order : List AnnotationKey} (s : AnnotationStore)
    (horder : order = s.rows.map AroAnnotation.key)
    (hnodup : (s.rows.map AroAnnotation.key).Nodup) :
    s.evictFrom order = { s with
      rows := newest (some s.maxRows) s.rows
      order := newest (some s.maxRows) order
      evicted := s.evicted + (s.rows.length - s.maxRows) } := by
  induction order generalizing s with
  | nil =>
    have hrows : s.rows = [] := map_eq_nil_iff.mp horder.symm
    simp [evictFrom, newest, hrows]
  | cons oldest order ih =>
    obtain ⟨row, rows, hrows, rfl, rfl⟩ := map_eq_cons_iff.mp horder.symm
    rw [evictFrom]
    by_cases hover : s.maxRows < s.rows.length
    · rw [hrows, map_cons, nodup_cons] at hnodup
      have hget : s.get row.key = some row := by simp [get, find, hrows]
      have hdelete : delete AroAnnotation.key s.rows row.key = rows := by
        rw [hrows, delete, filter_cons_of_neg (by simp), filter_eq_self]
        intro r hr
        have hne : r.key ≠ row.key := fun heq => hnodup.1 (heq ▸ mem_map_of_mem hr)
        simpa using hne
      rw [if_pos hover, hget, hdelete, ih _ rfl hnodup.2]
      have hdrop n (hn : s.maxRows < n + 1) : n + 1 - s.maxRows = n - s.maxRows + 1 := by
        omega
      rw [hrows] at hover
      simp only [newest, hrows, length_cons, length_map, hdrop _ hover,
        drop_succ_cons, Option.isSome_some, if_true]
      congr 1
      omega
    · rw [if_neg hover]
      have hzero : s.rows.length - s.maxRows = 0 := by omega
      have hlength : (row.key :: rows.map AroAnnotation.key).length = s.rows.length := by
        rw [horder, length_map]
      simp [newest, hlength, hzero]

theorem map_key_update (rows : List AroAnnotation) (a : AroAnnotation) :
    (update AroAnnotation.key rows a.key fun _ => a).map AroAnnotation.key =
      rows.map AroAnnotation.key := by
  rw [update, map_map]
  refine map_congr_left fun r _ => ?_
  by_cases hr : r.key = a.key <;> simp [hr]

section

variable (h : s.Kept)
include h

/-- A key that is held is revised in place. -/
theorem Kept.store_of_held (hget : s.get a.key = some r) :
    s.store a = { s with rows := update AroAnnotation.key s.rows a.key fun _ => a } := by
  have hkeys := map_key_update s.rows a
  have hlength : (update AroAnnotation.key s.rows a.key fun _ => a).length = s.rows.length := by
    rw [update, length_map]
  have hupsert : KeyedTable.upsert AroAnnotation.key s.rows a (fun _ => a) =
      update AroAnnotation.key s.rows a.key fun _ => a :=
    if_pos (Option.isSome_of_eq_some hget)
  have hzero : s.rows.length - s.maxRows = 0 := Nat.sub_eq_zero_of_le h.length_le
  rw [store, hget, hupsert]
  dsimp only [Option.isNone_some]
  rw [if_neg Bool.false_ne_true, evictOverflow,
    evictFrom_eq _ (h.order_eq.trans hkeys.symm) (hkeys ▸ h.nodup)]
  simp [newest, hlength, h.order_eq, hzero]

theorem Kept.nodup_concat (hget : s.get a.key = none) :
    ((s.rows ++ [a]).map AroAnnotation.key).Nodup := by
  rw [map_append]
  refine Nodup.append h.nodup (nodup_singleton _) (disjoint_singleton.mpr ?_)
  intro hmem
  obtain ⟨r, hr, hkey⟩ := mem_map.mp hmem
  exact get_eq_none.mp hget r hr hkey

/-- A new key goes to the end, and the oldest rows leave. -/
theorem Kept.store_of_new (hget : s.get a.key = none) : s.store a = { s with
      rows := newest (some s.maxRows) (s.rows ++ [a])
      order := newest (some s.maxRows) (s.order ++ [a.key])
      evicted := s.evicted + (s.rows.length + 1 - s.maxRows) } := by
  have hkeys : (s.rows ++ [a]).map AroAnnotation.key = s.order ++ [a.key] := by
    rw [map_append, map_singleton, h.order_eq]
  have hupsert : KeyedTable.upsert AroAnnotation.key s.rows a (fun _ => a) = s.rows ++ [a] := by
    rw [KeyedTable.upsert, if_neg]
    simpa [get] using hget
  rw [store, hget, hupsert]
  rw [evictOverflow, evictFrom_eq _ hkeys.symm (h.nodup_concat hget)]
  simp

/-- A stale or equal revision is counted and dropped, a newer one replaces the row, and the row of
a new key is kept with the newest of the others. -/
theorem Kept.upsert_cases (a : AroAnnotation) :
    (∃ r, s.get a.key = some r ∧ a.row.revision ≤ r.row.revision ∧
      s.upsert a = ({ s with ignored := s.ignored + 1 }, false)) ∨
    (∃ r, s.get a.key = some r ∧ r.row.revision < a.row.revision ∧
      s.upsert a = ({ s with rows := update AroAnnotation.key s.rows a.key fun _ => a }, true)) ∨
    (s.get a.key = none ∧ s.upsert a = ({ s with
        rows := newest (some s.maxRows) (s.rows ++ [a])
        order := newest (some s.maxRows) (s.order ++ [a.key])
        evicted := s.evicted + (s.rows.length + 1 - s.maxRows) }, true)) := by
  cases hget : s.get a.key with
  | none =>
    refine .inr (.inr ⟨rfl, ?_⟩)
    rw [upsert, hget]
    exact congrArg (·, true) (h.store_of_new hget)
  | some r =>
    by_cases hstale : a.row.revision ≤ r.row.revision
    · refine .inl ⟨r, rfl, hstale, ?_⟩
      rw [upsert, hget]
      exact if_pos hstale
    · refine .inr (.inl ⟨r, rfl, Nat.lt_of_not_le hstale, ?_⟩)
      rw [upsert, hget]
      exact (if_neg hstale).trans (congrArg (·, true) (h.store_of_held hget))

/-! ### The invariant along a stream -/

theorem Kept.upsert (a : AroAnnotation) :
    (s.upsert a).1.Kept ∧ (s.upsert a).1.maxRows = s.maxRows := by
  obtain ⟨r, -, -, heq⟩ | ⟨r, -, -, heq⟩ | ⟨hget, heq⟩ := h.upsert_cases a
  · rw [heq]
    exact ⟨⟨h.order_eq, h.nodup, h.length_le⟩, rfl⟩
  · rw [heq]
    have hkeys := map_key_update s.rows a
    refine ⟨⟨h.order_eq.trans hkeys.symm, hkeys ▸ h.nodup, ?_⟩, rfl⟩
    rw [update, length_map]
    exact h.length_le
  · rw [heq]
    refine ⟨⟨?_, ?_, length_newest_le⟩, rfl⟩
    · rw [map_newest, map_append, map_singleton, h.order_eq]
    · have hsub : (newest (some s.maxRows) (s.rows ++ [a])).Sublist (s.rows ++ [a]) :=
        newest_suffix.sublist
      exact (h.nodup_concat hget).sublist (hsub.map _)

theorem Kept.applyAll (stream : List AroAnnotation) :
    (s.applyAll stream).Kept ∧ (s.applyAll stream).maxRows = s.maxRows := by
  induction stream generalizing s with
  | nil => exact ⟨h, rfl⟩
  | cons a stream ih =>
    obtain ⟨hkept, hmax⟩ := h.upsert a
    obtain ⟨hkept', hmax'⟩ := ih hkept
    exact ⟨hkept', hmax'.trans hmax⟩

end

theorem applyAll_append (s : AnnotationStore) (front mid : List AroAnnotation) :
    s.applyAll (front ++ mid) = (s.applyAll front).applyAll mid := foldl_append

theorem applyAll_concat (s : AnnotationStore) (front : List AroAnnotation) (a : AroAnnotation) :
    s.applyAll (front ++ [a]) = ((s.applyAll front).upsert a).1 := by
  rw [applyAll_append]
  rfl

/-! ### Counting -/

/-- How many annotations of a stream change the store. -/
def accepted (s : AnnotationStore) : List AroAnnotation → ℕ
  | [] => 0
  | a :: stream => (if (s.upsert a).2 then 1 else 0) + accepted (s.upsert a).1 stream

def heldKeys (s : AnnotationStore) : Finset AnnotationKey :=
  (s.rows.map AroAnnotation.key).toFinset

/-- The keys of the rows that an upsert takes out, where it may be its own. -/
def removedKeys (s : AnnotationStore) (a : AroAnnotation) : Finset AnnotationKey :=
  insert a.key s.heldKeys \ (s.upsert a).1.heldKeys

/-- How many rows are taken out along a stream. -/
def removed (s : AnnotationStore) : List AroAnnotation → ℕ
  | [] => 0
  | a :: stream => (s.removedKeys a).card + removed (s.upsert a).1 stream

theorem Kept.accepted_add_ignored (h : s.Kept) (stream : List AroAnnotation) :
    s.accepted stream + (s.applyAll stream).ignored = s.ignored + stream.length := by
  induction stream generalizing s with
  | nil => exact Nat.zero_add _
  | cons a stream ih =>
    have hrest := ih (h.upsert a).1
    have hstep : (if (s.upsert a).2 then 1 else 0) + (s.upsert a).1.ignored = s.ignored + 1 := by
      obtain ⟨r, -, -, heq⟩ | ⟨r, -, -, heq⟩ | ⟨-, heq⟩ := h.upsert_cases a
      all_goals rw [heq]; simp [Nat.add_comm]
    change _ + accepted _ stream + ((s.upsert a).1.applyAll stream).ignored = _
    rw [length_cons]
    omega

theorem mem_heldKeys_of_get (hget : s.get k = some r) : k ∈ s.heldKeys := by
  obtain ⟨hr, rfl⟩ := mem_of_find hget
  exact mem_toFinset.mpr (mem_map_of_mem hr)

theorem Kept.card_removedKeys (h : s.Kept) (a : AroAnnotation) :
    (s.upsert a).1.evicted = s.evicted + (s.removedKeys a).card := by
  unfold removedKeys
  obtain ⟨r, hget, -, heq⟩ | ⟨r, hget, -, heq⟩ | ⟨hget, heq⟩ := h.upsert_cases a
  · rw [heq, Finset.insert_eq_of_mem (mem_heldKeys_of_get hget)]
    simp [heldKeys]
  · rw [heq, Finset.insert_eq_of_mem (mem_heldKeys_of_get hget)]
    simp [heldKeys, map_key_update]
  · rw [heq]
    have hnodup := h.nodup_concat hget
    have hbefore : insert a.key s.heldKeys = ((s.rows ++ [a]).map AroAnnotation.key).toFinset := by
      rw [map_append, toFinset_append, Finset.union_comm]
      rfl
    have hsuffix : newest (some s.maxRows) (s.rows ++ [a]) <:+ s.rows ++ [a] := newest_suffix
    have hsub := hsuffix.sublist.map AroAnnotation.key
    have hafter : (newest (some s.maxRows) (s.rows ++ [a])).length =
        s.rows.length + 1 - (s.rows.length + 1 - s.maxRows) := by simp [newest]
    dsimp only
    have hsubset : ((newest (some s.maxRows) (s.rows ++ [a])).map AroAnnotation.key).toFinset ⊆
        ((s.rows ++ [a]).map AroAnnotation.key).toFinset := by
      intro k hk
      exact mem_toFinset.mpr (hsub.subset (mem_toFinset.mp hk))
    rw [hbefore, heldKeys, Finset.card_sdiff_of_subset hsubset,
      toFinset_card_of_nodup hnodup, toFinset_card_of_nodup (hnodup.sublist hsub),
      length_map, length_map, length_append, length_singleton]
    omega

theorem Kept.evicted_eq (h : s.Kept) (stream : List AroAnnotation) :
    (s.applyAll stream).evicted = s.evicted + s.removed stream := by
  induction stream generalizing s with
  | nil => rfl
  | cons a stream ih =>
    change ((s.upsert a).1.applyAll stream).evicted = s.evicted + (_ + removed _ stream)
    rw [ih (h.upsert a).1, h.card_removedKeys a, Nat.add_assoc]

/-! ### Revisions -/

/-- A row that is held before and after an upsert did not go back. -/
theorem Kept.revision_le_upsert (h : s.Kept) {r' : AroAnnotation} (hr : s.get k = some r)
    (hr' : (s.upsert a).1.get k = some r') : r.row.revision ≤ r'.row.revision := by
  obtain ⟨hmem, rfl⟩ := h.get_eq_some.mp hr
  obtain ⟨hmem', hkey⟩ := (h.upsert a).1.get_eq_some.mp hr'
  obtain ⟨held, -, -, heq⟩ | ⟨held, hget, hlt, heq⟩ | ⟨hget, heq⟩ := h.upsert_cases a
  · rw [heq] at hmem'
    rw [unique_of_nodup h.nodup r hmem r' hmem' hkey.symm]
  · rw [heq] at hmem'
    obtain ⟨hold, -⟩ | ⟨b, hb, hbkey, rfl⟩ := mem_update.mp hmem'
    · rw [unique_of_nodup h.nodup r hmem r' hold hkey.symm]
    · have hheld : held = r := by
        obtain ⟨hheld, hheldKey⟩ := h.get_eq_some.mp hget
        exact unique_of_nodup h.nodup held hheld r hmem (hheldKey.trans hkey)
      exact (hheld ▸ hlt).le
  · rw [heq] at hmem'
    have hsuffix : newest (some s.maxRows) (s.rows ++ [a]) <:+ s.rows ++ [a] := newest_suffix
    have hold : r' ∈ s.rows ++ [a] := hsuffix.subset hmem'
    have hrow := unique_of_nodup (h.nodup_concat hget) r (mem_append_left _ hmem) r' hold
    rw [hrow hkey.symm]

/-- A row that stays held along a stream does not go back. -/
theorem Kept.revision_le (h : s.Kept) {stream : List AroAnnotation} (hr : s.get k = some r)
    (hheld : ∀ front, front <+: stream → ((s.applyAll front).get k).isSome = true) :
    ∃ r', (s.applyAll stream).get k = some r' ∧ r.row.revision ≤ r'.row.revision := by
  induction stream using List.reverseRecOn with
  | nil => exact ⟨r, hr, le_rfl⟩
  | append_singleton stream a ih =>
    obtain ⟨before, hbefore, hle⟩ := ih fun front hfront =>
      hheld front (hfront.trans (prefix_append stream [a]))
    obtain ⟨after, hafter⟩ := Option.isSome_iff_exists.mp (hheld _ prefix_rfl)
    rw [applyAll_concat] at hafter ⊢
    exact ⟨after, hafter, hle.trans ((h.applyAll stream).1.revision_le_upsert hbefore hafter)⟩

end AnnotationStore

/-- **In every state that upserts reach**, the order lists the keys that are held, each once, and
no more rows are held than allowed; every upsert is accepted or counted as ignored, and every row
that was taken out as evicted. A row does not go back while it is held. -/
theorem annotationStore_sound (maxRows : ℕ) (stream : List AroAnnotation) :
    let s₀ := AnnotationStore.withMaxRows maxRows
    let s := s₀.applyAll stream
    (s.order.Nodup ∧ ∀ k, k ∈ s.order ↔ (s.get k).isSome = true) ∧ s.rows.length ≤ maxRows ∧
      s₀.accepted stream + s.ignored = stream.length ∧ s.evicted = s₀.removed stream ∧
      ∀ more k r, s.get k = some r →
        (∀ front, front <+: more → ((s.applyAll front).get k).isSome = true) →
        ∃ r', (s.applyAll more).get k = some r' ∧ r.row.revision ≤ r'.row.revision := by
  intro s₀ s
  have hstart : s₀.Kept := AnnotationStore.kept_withMaxRows maxRows
  obtain ⟨hkept, hmax⟩ := hstart.applyAll stream
  have hcount := hstart.accepted_add_ignored stream
  have hevicted := hstart.evicted_eq stream
  refine ⟨⟨hkept.order_eq ▸ hkept.nodup, fun k => hkept.mem_order⟩, ?_, ?_, ?_, ?_⟩
  · exact hkept.length_le.trans hmax.le
  · exact hcount.trans (Nat.zero_add _)
  · exact hevicted.trans (Nat.zero_add _)
  · intro more k r hr hheld
    exact hkept.revision_le hr hheld

/-! ### Replay -/

namespace AnnotationStore

variable {s : AnnotationStore} {a r : AroAnnotation} {k : AnnotationKey} {maxRows : ℕ}
  {stream : List AroAnnotation}

/-- No row is older than an annotation of its key in the stream before it. -/
def Newest (s : AnnotationStore) (stream : List AroAnnotation) : Prop :=
  ∀ k r, s.get k = some r → ∀ a ∈ stream, a.key = k → a.row.revision ≤ r.row.revision

/-- Every annotation of the stream has a row, which is not older. -/
def Current (s : AnnotationStore) (stream : List AroAnnotation) : Prop :=
  ∀ a ∈ stream, ∃ r, s.get a.key = some r ∧ a.row.revision ≤ r.row.revision

theorem Current.newest (h : s.Current stream) : s.Newest stream := by
  rintro k r hr a ha rfl
  obtain ⟨r', hr', hle⟩ := h a ha
  rwa [Option.some.inj (hr.symm.trans hr')]

/-- What is current is not changed by a replay. -/
theorem Kept.rows_replay (h : s.Kept) (hcurrent : s.Current stream) {more : List AroAnnotation}
    (hmore : more ⊆ stream) : (s.applyAll more).rows = s.rows := by
  induction more generalizing s with
  | nil => rfl
  | cons a more ih =>
    rw [cons_subset] at hmore
    obtain ⟨r, hget, hle⟩ := hcurrent a hmore.1
    have hstale : (s.upsert a).1 = { s with ignored := s.ignored + 1 } := by
      rw [AnnotationStore.upsert, hget]
      exact congrArg Prod.fst (if_pos hle)
    change ((s.upsert a).1.applyAll more).rows = s.rows
    have hrest := ih (h.upsert a).1
    rw [hstale] at hrest ⊢
    exact hrest hcurrent hmore.2

theorem newest_of_length_le {rows : List AroAnnotation} (h : rows.length ≤ maxRows) :
    newest (some maxRows) rows = rows := by
  rw [newest, Nat.sub_eq_zero_of_le h, drop_zero]

/-- With room for a new row, an upsert keeps the store current. -/
theorem Kept.current_upsert (h : s.Kept) (hcurrent : s.Current stream)
    (hroom : s.get a.key = none → s.rows.length < s.maxRows) :
    (s.upsert a).1.Current (stream ++ [a]) := by
  have hkept := (h.upsert a).1
  obtain ⟨held, hget, hle, heq⟩ | ⟨held, hget, hlt, heq⟩ | ⟨hget, heq⟩ := h.upsert_cases a
  · intro b hb
    rw [heq]
    obtain hb | hb := mem_append.mp hb
    · exact hcurrent b hb
    · obtain rfl := mem_singleton.mp hb
      exact ⟨held, hget, hle⟩
  · have ha : (s.upsert a).1.get a.key = some a := by
      obtain ⟨hmem, hkey⟩ := h.get_eq_some.mp hget
      refine hkept.get_eq_some.mpr ⟨?_, rfl⟩
      rw [heq]
      exact mem_update.mpr (.inr ⟨held, hmem, hkey, rfl⟩)
    intro b hb
    obtain hb | hb := mem_append.mp hb
    · obtain ⟨r, hr, hle⟩ := hcurrent b hb
      by_cases hkey : b.key = a.key
      · rw [hkey] at hr ⊢
        obtain rfl : held = r := Option.some.inj (hget.symm.trans hr)
        exact ⟨a, ha, hle.trans hlt.le⟩
      · obtain ⟨hmem, hrkey⟩ := h.get_eq_some.mp hr
        refine ⟨r, hkept.get_eq_some.mpr ⟨?_, hrkey⟩, hle⟩
        rw [heq]
        exact mem_update.mpr (.inl ⟨hmem, hrkey.trans_ne hkey⟩)
    · obtain rfl := mem_singleton.mp hb
      exact ⟨b, ha, le_rfl⟩
  · have hrows : (s.upsert a).1.rows = s.rows ++ [a] := by
      rw [heq]
      refine newest_of_length_le ?_
      rw [length_append]
      exact hroom hget
    intro b hb
    obtain hb | hb := mem_append.mp hb
    · obtain ⟨r, hr, hle⟩ := hcurrent b hb
      obtain ⟨hmem, hrkey⟩ := h.get_eq_some.mp hr
      exact ⟨r, hkept.get_eq_some.mpr ⟨hrows ▸ mem_append_left _ hmem, hrkey⟩, hle⟩
    · exact ⟨b, hkept.get_eq_some.mpr ⟨hrows ▸ mem_append_right _ hb, rfl⟩, le_rfl⟩

theorem Kept.mem_of_mem_upsert (h : s.Kept) (hr : r ∈ (s.upsert a).1.rows) :
    r ∈ s.rows ∨ r = a := by
  obtain ⟨_, _, _, heq⟩ | ⟨_, _, _, heq⟩ | ⟨_, heq⟩ := h.upsert_cases a
  · exact .inl (by rwa [heq] at hr)
  · rw [heq] at hr
    obtain ⟨hold, -⟩ | ⟨_, _, _, rfl⟩ := mem_update.mp hr
    · exact .inl hold
    · exact .inr rfl
  · rw [heq] at hr
    have hsuffix : newest (some s.maxRows) (s.rows ++ [a]) <:+ s.rows ++ [a] := newest_suffix
    exact (mem_append.mp (hsuffix.subset hr)).imp_right mem_singleton.mp

theorem mem_of_mem_applyAll (hr : r ∈ ((withMaxRows maxRows).applyAll stream).rows) :
    r ∈ stream := by
  induction stream using List.reverseRecOn with
  | nil => cases hr
  | append_singleton stream a ih =>
    rw [applyAll_concat] at hr
    have hkept := ((kept_withMaxRows maxRows).applyAll stream).1
    exact mem_append.mpr ((hkept.mem_of_mem_upsert hr).imp ih mem_singleton.mpr)

/-- A stream with no more keys than the store may hold rows never overflows it. -/
theorem current_applyAll {keys : Finset AnnotationKey} (hcard : keys.card ≤ maxRows)
    (hstream : ∀ a ∈ stream, a.key ∈ keys) :
    ((withMaxRows maxRows).applyAll stream).Current stream := by
  induction stream using List.reverseRecOn with
  | nil => exact fun a ha => absurd ha not_mem_nil
  | append_singleton stream a ih =>
    rw [applyAll_concat]
    obtain ⟨hkept, hmax⟩ := (kept_withMaxRows maxRows).applyAll stream
    refine hkept.current_upsert (ih fun b hb => hstream b (mem_append_left _ hb)) ?_
    intro hget
    have hnodup := hkept.nodup_concat hget
    have hsub : (((withMaxRows maxRows).applyAll stream).rows ++ [a]).map AroAnnotation.key ⊆
        keys.toList := by
      intro k hk
      obtain ⟨r, hr, rfl⟩ := mem_map.mp hk
      refine Finset.mem_toList.mpr (hstream r ?_)
      exact mem_append.mpr ((mem_append.mp hr).imp_left mem_of_mem_applyAll)
    have hlength := (subperm_of_subset hnodup hsub).length_le
    rw [length_map, length_append, Finset.length_toList] at hlength
    exact hlength.trans (hcard.trans hmax.ge)

/-- Of a stream of new keys, the newest rows are held. -/
theorem rows_applyAll_of_nodup (h : (stream.map AroAnnotation.key).Nodup) :
    ((withMaxRows maxRows).applyAll stream).rows = newest (some maxRows) stream := by
  induction stream using List.reverseRecOn with
  | nil => simp [applyAll, withMaxRows, newest]
  | append_singleton stream a ih =>
    rw [map_append, nodup_append] at h
    obtain ⟨hnodup, -, hnew⟩ := h
    obtain ⟨hkept, hmax⟩ := (kept_withMaxRows maxRows).applyAll stream
    have hget : ((withMaxRows maxRows).applyAll stream).get a.key = none :=
      get_eq_none.mpr fun r hr => hnew r.key
        (mem_map_of_mem (mem_of_mem_applyAll hr)) a.key (mem_singleton_self _)
    rw [applyAll_concat]
    obtain ⟨_, hheld, -⟩ | ⟨_, hheld, -⟩ | ⟨-, heq⟩ := hkept.upsert_cases a
    · cases hget.symm.trans hheld
    · cases hget.symm.trans hheld
    · rw [heq]
      dsimp only
      rw [hmax, ih hnodup]
      exact newest_newest_append

end AnnotationStore

/-- A second application of the stream leaves the rows as they were after the first, and
throughout both no row is older than one already applied. -/
def Replays (maxRows : ℕ) (stream : List AroAnnotation) : Prop :=
  let s₀ := AnnotationStore.withMaxRows maxRows
  (∀ k, (s₀.applyAll (stream ++ stream)).get k = (s₀.applyAll stream).get k) ∧
    ∀ front, front <+: stream ++ stream → (s₀.applyAll front).Newest front

section Replay

variable {maxRows : ℕ} {keys : Finset AnnotationKey} {stream : List AroAnnotation}

theorem replays_zero (stream : List AroAnnotation) : Replays 0 stream := by
  have hnone stream k : ((AnnotationStore.withMaxRows 0).applyAll stream).get k = none := by
    obtain ⟨hkept, hmax⟩ := (AnnotationStore.kept_withMaxRows 0).applyAll stream
    have hrows := eq_nil_of_length_eq_zero
      (Nat.eq_zero_of_le_zero (hkept.length_le.trans hmax.le))
    rw [AnnotationStore.get, hrows]
    rfl
  refine ⟨fun k => (hnone _ k).trans (hnone _ k).symm, fun front _ k r hr => ?_⟩
  cases (hnone front k).symm.trans hr

theorem replays_of_card_le (hcard : keys.card ≤ maxRows) (hstream : ∀ a ∈ stream, a.key ∈ keys) :
    Replays maxRows stream := by
  refine ⟨fun k => ?_, fun front hfront => ?_⟩
  · have hkept := ((AnnotationStore.kept_withMaxRows maxRows).applyAll stream).1
    have hcurrent := AnnotationStore.current_applyAll hcard hstream
    rw [AnnotationStore.applyAll_append, AnnotationStore.get,
      hkept.rows_replay hcurrent (Subset.refl stream)]
    rfl
  · refine (AnnotationStore.current_applyAll hcard fun a ha => hstream a ?_).newest
    exact (mem_append.mp (hfront.subset ha)).elim id id

def annotationOf (key : AnnotationKey) (revision : ℕ) : AroAnnotation :=
  ⟨"", 0, ⟨key.1, key.2, revision, ""⟩⟩

/-- A row that other keys push out comes back at an older revision. -/
theorem not_replays_of_lt_card (hpos : 0 < maxRows) (hcard : maxRows < keys.card) :
    ∃ stream, (∀ a ∈ stream, a.key ∈ keys) ∧ ¬ Replays maxRows stream := by
  obtain ⟨k₀, hk₀⟩ := Finset.card_pos.mp (hpos.trans hcard)
  set others := (keys.erase k₀).toList with hothers
  have hlength : maxRows ≤ others.length := by
    rw [Finset.length_toList, Finset.card_erase_of_mem hk₀]
    omega
  set front := annotationOf k₀ 1 :: others.map (annotationOf · 0) with hfront
  have hkeys : front.map AroAnnotation.key = k₀ :: others := by
    rw [map_cons, map_map]
    exact congrArg _ (map_id others)
  have hnodup : (front.map AroAnnotation.key).Nodup := by
    rw [hkeys, nodup_cons]
    exact ⟨by simp [hothers], Finset.nodup_toList _⟩
  refine ⟨front ++ [annotationOf k₀ 0], ?_, ?_⟩
  · have hsub : ∀ k ∈ k₀ :: others, k ∈ keys := by
      intro k hk
      obtain rfl | hk := mem_cons.mp hk
      · exact hk₀
      · exact Finset.mem_of_mem_erase (Finset.mem_toList.mp hk)
    intro a ha
    obtain ha | ha := mem_append.mp ha
    · exact hsub _ (hkeys ▸ mem_map_of_mem ha)
    · obtain rfl := mem_singleton.mp ha
      exact hk₀
  · rintro ⟨-, hnewest⟩
    set s := (AnnotationStore.withMaxRows maxRows).applyAll front with hs
    obtain ⟨hkept, hmax⟩ := (AnnotationStore.kept_withMaxRows maxRows).applyAll front
    -- the other keys fill the store
    have hgone : s.get k₀ = none := by
      refine AnnotationStore.get_eq_none.mpr fun r hr hkey => ?_
      rw [AnnotationStore.rows_applyAll_of_nodup hnodup, newest, length_cons,
        length_map, Nat.succ_sub hlength] at hr
      obtain ⟨k, hk, rfl⟩ := mem_map.mp (mem_of_mem_drop hr)
      rw [Finset.mem_toList] at hk
      exact Finset.ne_of_mem_erase hk hkey
    have hback : ((s.upsert (annotationOf k₀ 0)).1).get k₀ = some (annotationOf k₀ 0) := by
      refine (hkept.upsert _).1.get_eq_some.mpr ⟨?_, rfl⟩
      obtain ⟨_, hheld, -⟩ | ⟨_, hheld, -⟩ | ⟨-, heq⟩ := hkept.upsert_cases (annotationOf k₀ 0)
      · cases hgone.symm.trans hheld
      · cases hgone.symm.trans hheld
      · rw [heq]
        rw [newest, length_append, hmax, drop_append_of_le_length]
        · exact mem_append_right _ (mem_singleton_self _)
        · change s.rows.length + 1 - maxRows ≤ s.rows.length
          omega
    have hold := hnewest (front ++ [annotationOf k₀ 0]) (prefix_append _ _) k₀
      (annotationOf k₀ 0) (by rwa [AnnotationStore.applyAll_concat]) (annotationOf k₀ 1)
      (by simp [hfront]) rfl
    exact absurd hold (Nat.not_succ_le_zero 0)

end Replay

/-- **The streams over a set of keys all replay without effect if and only if the store has room
for every key**, or for no row at all. -/
theorem replays_iff (maxRows : ℕ) (keys : Finset AnnotationKey) :
    (∀ stream : List AroAnnotation, (∀ a ∈ stream, a.key ∈ keys) → Replays maxRows stream) ↔
      maxRows = 0 ∨ keys.card ≤ maxRows := by
  constructor
  · intro h
    by_contra hover
    rw [not_or, Nat.not_le] at hover
    obtain ⟨stream, hstream, hnot⟩ :=
      not_replays_of_lt_card (Nat.pos_of_ne_zero hover.1) hover.2
    exact hnot (h stream hstream)
  · rintro (rfl | hcard) stream hstream
    · exact replays_zero stream
    · exact replays_of_card_le hcard hstream

/-- Four rows of one kind at one revision, the first of them sent again between the others: a
store of two rows ends with other rows after the replay. -/
def overflowing : List AroAnnotation :=
  ["a", "b", "a", "c", "a", "d"].map fun rowId => annotationOf (.enforcement, rowId) 0

theorem overflowing_not_replayed : ¬ Replays 2 overflowing ∧
      ¬ Replays 1 [annotationOf (.enforcement, "a") 1, annotationOf (.enforcement, "b") 0,
        annotationOf (.enforcement, "a") 0] := by
  refine ⟨fun h => ?_, fun h => ?_⟩
  · exact absurd (h.1 (.enforcement, "a")) (by decide)
  · have hold := h.2 _ (prefix_append _ _) (.enforcement, "a")
      (annotationOf (.enforcement, "a") 0) (by decide) (annotationOf (.enforcement, "a") 1)
      (by decide) rfl
    exact absurd hold (by decide)

end AgentSight.Bridge
