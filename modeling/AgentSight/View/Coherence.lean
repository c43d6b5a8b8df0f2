import AgentSight.Lib.Transition
import AgentSight.View.Convergence
import AgentSight.View.RevisionLaw

/-!
# Revision coherence

A receiver sees the rows of a view twice over: in the mutations streamed to it and in the
snapshots it asks for. Both carry a revision, which the emitter assigns when it publishes a
row and a snapshot looks up, with 0 for a row that was never published. Sightings of a row at
one revision agree as long as nothing is stored behind the emitter's back: then the hash it
remembers of a row is that of the stored one, and so every later sighting at the same revision
is a projection of the row that was seen before.
-/

namespace AgentSight.View

open Bridge (DisclosureMode MutationEmitter MutationEmitterConfig MutationOperation RevisionState
  TimestampBasis ViewMutation)
open Effectful Transition List Option Function MaterializedView
open Std (TreeMap)

/-! ### What a receiver sees -/

/-- Where the revision of a sighting comes from. -/
inductive Standing where
  /-- No sink was attached, so there were no revisions. -/
  | unattached
  /-- The row had not been published: its revision is the default. -/
  | unpublished
  | assigned
  deriving DecidableEq

structure Sighting where
  mutation : ViewMutation
  standing : Standing
  /-- The mode the row was projected under. -/
  disclosure : DisclosureMode
  deriving DecidableEq

/-- The kind and id of a tracked row and the revision it is seen at. -/
def Sighting.version? (a : Sighting) : Option (RowKey × ℕ) :=
  match a.mutation.rowId?, a.mutation.revision? with
  | some rowId, some revision => some ((a.mutation.rowKind, rowId), revision)
  | _, _ => none

/-- The sighting is the notice that the row is gone. -/
def Sighting.evicts (a : Sighting) (key : RowKey) : Bool :=
  a.mutation = .rowEvicted key.1 key.2

/-- Two sightings of a row at one revision, with no eviction of the row between them, show the
same content, if both revisions were assigned or both are the default and the rows were
projected under the same mode. -/
def Coherent (seen : List Sighting) : Prop :=
  ∀ pre a mid b post key revision, seen = pre ++ a :: mid ++ b :: post →
    a.version? = some (key, revision) → b.version? = some (key, revision) →
      (∀ c ∈ mid, c.evicts key = false) → a.standing = b.standing → b.standing ≠ .unattached →
        a.disclosure = b.disclosure → a.mutation = b.mutation

section View

variable {σ : Type}

/-- What the emitter remembers of a row. -/
def MaterializedView.revisionState (v : MaterializedView σ) (key : RowKey) : Option RevisionState :=
  v.mutations.bind (·.revisions key)

instance (v : MaterializedView σ) : Decidable v.Attached :=
  decidable_of_iff (v.mutations.any (!·.sinks.isEmpty)) (by
    simp [MaterializedView.Attached, Option.any_eq_true])

/-- The sightings of the mutations that the operation leading to `v'` streamed. -/
def streamed (v v' : MaterializedView σ) : List Sighting :=
  (v'.stream.drop v.stream.length).map fun m => ⟨m, .assigned, v'.mutationDisclosure⟩

/-- The standing of a row of a snapshot. -/
def standing (v : MaterializedView σ) (m : ViewMutation) : Standing :=
  if v.Attached then
    if (m.rowId?.bind fun rowId => v.revisionState (m.rowKind, rowId)).isSome then .assigned
    else .unpublished
  else .unattached

/-- The sightings of a snapshot. -/
def pictured [External] (v : MaterializedView σ) (disclosure : DisclosureMode) : List Sighting :=
  (v.bridgeSnapshotMutations disclosure).map fun m => ⟨m, standing v m, disclosure⟩

/-- A view, and what a receiver of all its mutations and snapshots has seen. -/
structure Observed (σ : Type) where
  view : MaterializedView σ
  seen : List Sighting

inductive ObservedAction (σ : Type) where
  | mutate (op : Mutator σ)
  | snapshot (disclosure : DisclosureMode)

/-- The operation changes a row with a revision without publishing it. -/
def Mutator.StoresSilently : Mutator σ → Prop
  | applyLlmCall _ | applyTokenUsage _ | applyToolCall _ | upsertSession _
  | upsertNetworkTarget _ | upsertProcessNode _ => True
  | _ => False

namespace Observed

variable [ViewSink σ] [External]

/-- An empty view, with whatever it retains. -/
def init (sinks : List σ) (maxAuditEvents maxResourceSamples : Option ℕ) : Observed σ where
  view := { MaterializedView.new sinks with maxAuditEvents, maxResourceSamples }
  seen := []

def step (t : Observed σ) : ObservedAction σ → Option (Observed σ)
  | .mutate op =>
    some ⟨op.run t.view, t.seen ++ streamed t.view (op.run t.view)⟩
  | .snapshot disclosure => some { t with seen := t.seen ++ pictured t.view disclosure }

/-- Once a sink is attached, every change is published, and a snapshot is taken while the
published ids of the network targets are distinct. -/
def Admits (t : Observed σ) : ObservedAction σ → Prop
  | .mutate op => t.view.Attached → ¬ op.StoresSilently
  | .snapshot _ => t.view.Attached → RowKind.networkTarget.Distinct t.view

end Observed

end View

/-! ### Sightings since the last eviction -/

/-- The sightings since the row was last evicted. -/
def live (key : RowKey) (seen : List Sighting) : List Sighting :=
  seen.foldl (fun l a => if a.evicts key then [] else l ++ [a]) []

variable {key : RowKey} {seen : List Sighting} {a b : Sighting}

theorem live_concat (key : RowKey) (seen : List Sighting) (a : Sighting) :
    live key (seen ++ [a]) = if a.evicts key then [] else live key seen ++ [a] := by
  rw [live, foldl_concat]
  rfl

theorem mem_live_of_split {pre mid : List Sighting} (ha : a.evicts key = false)
    (hmid : ∀ c ∈ mid, c.evicts key = false) : a ∈ live key (pre ++ a :: mid) := by
  induction mid using List.reverseRecOn with
  | nil => simp [live_concat, ha]
  | append_singleton mid c ih =>
    have hrest := ih fun c' hc' => hmid c' (mem_append_left _ hc')
    rw [← cons_append, ← append_assoc, live_concat,
      hmid c (mem_append_right _ mem_cons_self)]
    exact mem_append_left _ hrest

theorem mem_of_mem_live (h : a ∈ live key seen) : a ∈ seen := by
  induction seen using List.reverseRecOn with
  | nil => cases h
  | append_singleton seen c ih =>
    rw [live_concat] at h
    split_ifs at h
    · cases h
    · obtain h | h := mem_append.mp h
      · exact mem_append_left _ (ih h)
      · exact mem_append_right _ h

theorem evicts_eq_false_of_version (key : RowKey) {key' : RowKey} {revision : ℕ}
    (h : a.version? = some (key', revision)) : a.evicts key = false := by
  rw [Sighting.evicts, decide_eq_false_iff_not]
  intro hevicted
  simp [Sighting.version?, hevicted, ViewMutation.revision?] at h

/-- What a new sighting owes the ones before it. -/
def Matches (pre : List Sighting) (b : Sighting) : Prop :=
  ∀ key revision, b.version? = some (key, revision) → ∀ a ∈ live key pre,
    a.version? = some (key, revision) → a.standing = b.standing → b.standing ≠ .unattached →
      a.disclosure = b.disclosure → a.mutation = b.mutation

theorem coherent_of_lawful (h : History.Lawful Matches seen) : Coherent seen := by
  intro pre a mid b post key revision hseen ha hb hmid hstanding hattached hdisclosure
  exact h (pre ++ a :: mid) b post hseen key revision hb a
    (mem_live_of_split (evicts_eq_false_of_version _ ha) hmid) ha hstanding hattached hdisclosure

theorem matches_of_version_eq_none {pre : List Sighting} (h : b.version? = none) :
    Matches pre b := by
  intro key revision hb
  rw [h] at hb
  cases hb

theorem version?_project [External] (kind : RowKind) (row : kind.RowOf) (r : ℕ)
    (standing : Standing) (d d' : DisclosureMode) :
    Sighting.version? ⟨kind.project row r d, standing, d'⟩ =
      some ((kind.name, kind.rowId row), r) := by
  cases kind <;> rfl

/-! ### The invariant -/

section Invariant

variable {σ : Type} [External] {v v' : MaterializedView σ}

/-- What is still known of a sighting since the last eviction of its row. An assigned revision
is the current one only if the remembered hash is that of the row seen; a default revision is
that of the stored row until the row is published. -/
def Sighting.Known (a : Sighting) (v : MaterializedView σ) (key : RowKey) (revision : ℕ) : Prop :=
  match a.standing with
  | .unattached => True
  | .unpublished => (v.revisionState key).isSome ∨
      ∃ (kind : RowKind) (k : String) (row : kind.RowOf), (kind.name, kind.rowId row) = key ∧
        (kind.table v)[k]? = some row ∧ a.mutation = kind.project row 0 a.disclosure
  | .assigned => ∃ state, v.revisionState key = some state ∧ revision ≤ state.revision ∧
      (revision = state.revision →
        ∃ (kind : RowKind) (row : kind.RowOf), (kind.name, kind.rowId row) = key ∧
          state.contentHash = MutationEmitter.hashRow (kind.toRow row) ∧
          a.mutation = kind.project row revision a.disclosure)

/-- No two rows of a kind have the same hash. -/
def Collisionfree : Prop :=
  ∀ (kind : RowKind) (row row' : kind.RowOf),
    MutationEmitter.hashRow (kind.toRow row) = MutationEmitter.hashRow (kind.toRow row') →
      row = row'

/-- What holds of a view and of what was seen of it. -/
structure Kept (v : MaterializedView σ) (seen : List Sighting) : Prop where
  filed : RowKind.Filed v
  idle : ¬ v.Attached → (∀ key, v.revisionState key = none) ∧ ∀ a ∈ seen, a.standing = .unattached
  /-- The remembered hash is that of a stored row. -/
  remembered : ∀ (kind : RowKind) id state, v.revisionState (kind.name, id) = some state →
    ∃ (k : String) (row : kind.RowOf), (kind.table v)[k]? = some row ∧ kind.rowId row = id ∧
      state.contentHash = MutationEmitter.hashRow (kind.toRow row)
  known : ∀ key, ∀ a ∈ live key seen, ∀ revision, a.version? = some (key, revision) →
    a.Known v key revision
  lawful : History.Lawful Matches seen

/-- A view without revisions, all of whose sightings were made before a sink was attached. -/
theorem kept_of_unattached (filed : RowKind.Filed v)
    (hrevisions : ∀ key, v.revisionState key = none)
    (hseen : ∀ a ∈ seen, a.standing = .unattached) : Kept v seen where
  filed := filed
  idle _ := ⟨hrevisions, hseen⟩
  remembered kind id state h := by
    rw [hrevisions] at h
    cases h
  known key a ha revision _ := by
    rw [Sighting.Known, hseen a (mem_of_mem_live ha)]
    trivial
  lawful pre b post hsplit key revision _ a _ _ _ hattached := by
    refine absurd (hseen b ?_) hattached
    rw [hsplit]
    exact mem_append_right _ mem_cons_self

/-- What concerns neither rows nor revisions may change freely. -/
theorem Kept.frame (h : Kept v seen) (htables : ∀ kind : RowKind, kind.table v' = kind.table v)
    (hrevisions : v'.revisionState = v.revisionState) (hattached : v.Attached → v'.Attached) :
    Kept v' seen where
  filed kind k row hrow := by
    rw [htables] at hrow
    exact h.filed kind k row hrow
  idle hidle := by
    rw [hrevisions]
    exact h.idle (mt hattached hidle)
  remembered kind id state hstate := by
    rw [hrevisions] at hstate
    rw [htables]
    exact h.remembered kind id state hstate
  known key a ha revision hversion := by
    have hknown := h.known key a ha revision hversion
    unfold Sighting.Known at hknown ⊢
    simpa only [hrevisions, htables] using hknown
  lawful := h.lawful

/-- A sighting that belongs to no row with a revision. -/
theorem Kept.sight_other (h : Kept v seen) (hversion : b.version? = none)
    (hevicts : ∀ key, b.evicts key = false) (hattached : v.Attached) : Kept v (seen ++ [b]) where
  filed := h.filed
  idle hidle := absurd hattached hidle
  remembered := h.remembered
  known key a ha revision ha' := by
    rw [live_concat, hevicts] at ha
    obtain ha | ha := mem_append.mp ha
    · exact h.known key a ha revision ha'
    · rw [mem_singleton.mp ha, hversion] at ha'
      cases ha'
  lawful := History.lawful_concat.mpr ⟨h.lawful, matches_of_version_eq_none hversion⟩

/-- The notice that a row is gone. -/
theorem Kept.evict (h : Kept v seen) (hattached : v'.Attached)
    (htables : ∀ kind : RowKind, kind.table v' = kind.table v)
    (hrevisions : v'.revisionState = Function.update v.revisionState key none)
    (hb : b.mutation = .rowEvicted key.1 key.2) : Kept v' (seen ++ [b]) where
  filed kind k row hrow := by
    rw [htables] at hrow
    exact h.filed kind k row hrow
  idle hidle := absurd hattached hidle
  remembered kind id state hstate := by
    rw [hrevisions] at hstate
    by_cases hkey : (kind.name, id) = key
    · rw [hkey, update_self] at hstate
      cases hstate
    · rw [update_of_ne hkey] at hstate
      rw [htables]
      exact h.remembered kind id state hstate
  known key' a ha revision hversion := by
    rw [live_concat] at ha
    split_ifs at ha with hevicts
    · cases ha
    · have hne : key' ≠ key := by
        rintro rfl
        exact hevicts (by simp [Sighting.evicts, hb])
      obtain ha | ha := mem_append.mp ha
      · have hknown := h.known key' a ha revision hversion
        unfold Sighting.Known at hknown ⊢
        simpa only [hrevisions, htables, update_of_ne hne] using hknown
      · have hself := evicts_eq_false_of_version key hversion
        rw [mem_singleton.mp ha] at hself
        simp [Sighting.evicts, hb] at hself
  lawful := by
    refine History.lawful_concat.mpr ⟨h.lawful, matches_of_version_eq_none ?_⟩
    simp [Sighting.version?, hb, ViewMutation.revision?]

variable {kind : RowKind}

omit [External] in
/-- Equal names and ids are those of one kind. -/
theorem eq_kind_of_key {kind' : RowKind} {id id' : String}
    (h : (kind'.name, id') = (kind.name, id)) : kind' = kind ∧ id' = id :=
  ⟨RowKind.name_injective (congrArg Prod.fst h), congrArg Prod.snd h⟩

/-- **A row is published.** The revision is the remembered one if the hash is, the next one
otherwise. -/
theorem Kept.publish (hhash : Collisionfree) (h : Kept v seen) {k : String}
    {row : kind.RowOf} (he : kind.Emitted v v' k row) (hattached : v'.Attached) {revision : ℕ}
    (hrevisions : v'.revisionState = Function.update v.revisionState (kind.name, kind.rowId row)
      (some ⟨MutationEmitter.hashRow (kind.toRow row), revision⟩))
    (hdecided : ∀ state, v.revisionState (kind.name, kind.rowId row) = some state →
      revision = if state.contentHash = MutationEmitter.hashRow (kind.toRow row)
        then state.revision else state.revision + 1) (d : DisclosureMode) :
    Kept v' (seen ++ [⟨kind.project row revision d, .assigned, d⟩]) := by
  have hversion : Sighting.version? ⟨kind.project row revision d, .assigned, d⟩ =
      some ((kind.name, kind.rowId row), revision) := version?_project ..
  have hknown : ∀ key, ∀ a ∈ live key seen, ∀ r, a.version? = some (key, r) → a.Known v' key r := by
    intro key a ha r har
    have hold := h.known key a ha r har
    by_cases hkey : key = (kind.name, kind.rowId row)
    · subst hkey
      unfold Sighting.Known at hold ⊢
      rw [hrevisions, update_self]
      cases hstanding : a.standing with
      | unattached => trivial
      | unpublished => exact .inl rfl
      | assigned =>
        rw [hstanding] at hold
        obtain ⟨state, hstate, hle, hsame⟩ := hold
        have hrevision := hdecided state hstate
        refine ⟨_, rfl, ?_⟩
        -- the remembered revision stays only if the remembered hash does
        split_ifs at hrevision with hequal
        · subst hrevision
          refine ⟨hle, fun hr => ?_⟩
          obtain ⟨kind', row', hkey', hhash', hmutation⟩ := hsame hr
          exact ⟨kind', row', hkey', hequal.symm.trans hhash', hmutation⟩
        · dsimp only
          exact ⟨by omega, fun hr => by omega⟩
    · unfold Sighting.Known at hold ⊢
      rw [hrevisions, update_of_ne hkey]
      cases hstanding : a.standing with
      | unattached => trivial
      | unpublished =>
        rw [hstanding] at hold
        obtain hsome | ⟨kind', k', row', rfl, hrow', hmutation⟩ := hold
        · exact .inl hsome
        · exact .inr ⟨kind', k', row', rfl, he.getElem?_of_ne hrow' hkey, hmutation⟩
      | assigned =>
        rw [hstanding] at hold
        exact hold
  refine ⟨he.filed h.filed, fun hidle => absurd hattached hidle, ?_, ?_, ?_⟩
  · intro kind' id state hstate
    rw [hrevisions] at hstate
    by_cases hkey : (kind'.name, id) = (kind.name, kind.rowId row)
    · obtain ⟨rfl, rfl⟩ := eq_kind_of_key hkey
      rw [update_self, some_inj] at hstate
      subst hstate
      exact ⟨k, row, he.getElem?_self, rfl, rfl⟩
    · rw [update_of_ne hkey] at hstate
      obtain ⟨k', row', hrow', rfl, hhash'⟩ := h.remembered kind' id state hstate
      exact ⟨k', row', he.getElem?_of_ne hrow' hkey, rfl, hhash'⟩
  · intro key a ha r har
    rw [live_concat, evicts_eq_false_of_version _ hversion] at ha
    obtain ha | ha := mem_append.mp ha
    · exact hknown key a ha r har
    · rw [mem_singleton.mp ha] at har ⊢
      obtain ⟨rfl, rfl⟩ := Prod.mk.inj (some.inj (hversion.symm.trans har))
      exact ⟨_, by rw [hrevisions, update_self], le_rfl,
        fun _ => ⟨kind, row, rfl, rfl, rfl⟩⟩
  · refine History.lawful_concat.mpr ⟨h.lawful, ?_⟩
    intro key r hb a ha har hstanding _ hdisclosure
    obtain ⟨rfl, rfl⟩ := Prod.mk.inj (some.inj (hversion.symm.trans hb))
    have hsame := hknown _ a ha _ har
    unfold Sighting.Known at hsame
    rw [hstanding, hrevisions, update_self] at hsame
    obtain ⟨state, hstate, -, hrow⟩ := hsame
    obtain rfl := some.inj hstate
    obtain ⟨kind', row', hkey', hequal, hmutation⟩ := hrow rfl
    obtain ⟨rfl, -⟩ := eq_kind_of_key hkey'
    obtain rfl := hhash kind' row row' hequal
    rw [hmutation, hdisclosure]

omit [External] in
theorem revision_eq (v : MaterializedView σ) (rowKind rowId : String) :
    v.revision rowKind rowId = ((v.revisionState (rowKind, rowId)).map (·.revision)).getD 0 := by
  unfold revision MaterializedView.revisionState MutationEmitter.revisionOf
  cases v.mutations <;> rfl

theorem standing_project (hattached : v.Attached) (kind : RowKind) (row : kind.RowOf) (r : ℕ)
    (d : DisclosureMode) :
    standing v (kind.project row r d) =
      if (v.revisionState (kind.name, kind.rowId row)).isSome then .assigned else .unpublished := by
  simp [standing, hattached, kind.rowId?_project, kind.rowKind_project]

/-- **A row is in a snapshot.** -/
theorem Kept.picture_row (hhash : Collisionfree) (h : Kept v seen) (hattached : v.Attached)
    (hdistinct : ∀ kind : RowKind, kind.Distinct v) {k : String}
    {row : kind.RowOf} (hrow : (kind.table v)[k]? = some row) (d : DisclosureMode) :
    let m := kind.project row (v.revision kind.name (kind.rowId row)) d
    Kept v (seen ++ [⟨m, standing v m, d⟩]) := by
  intro m
  have hversion : Sighting.version? ⟨m, standing v m, d⟩ =
      some ((kind.name, kind.rowId row), v.revision kind.name (kind.rowId row)) :=
    version?_project ..
  have hstanding := standing_project hattached kind row (v.revision kind.name (kind.rowId row)) d
  have hrevision := revision_eq v kind.name (kind.rowId row)
  -- the stored row is the one the emitter remembers
  have hstored : ∀ state, v.revisionState (kind.name, kind.rowId row) = some state →
      state.contentHash = MutationEmitter.hashRow (kind.toRow row) := by
    intro state hstate
    obtain ⟨k', row', hrow', hid, hequal⟩ := h.remembered kind _ state hstate
    obtain rfl := hdistinct kind k' k row' row hrow' hrow hid
    rwa [← some.inj (hrow'.symm.trans hrow)]
  refine ⟨h.filed, fun hidle => absurd hattached hidle, h.remembered, ?_, ?_⟩
  · intro key a ha r har
    rw [live_concat, evicts_eq_false_of_version _ hversion] at ha
    obtain ha | ha := mem_append.mp ha
    · exact h.known key a ha r har
    · rw [mem_singleton.mp ha] at har ⊢
      obtain ⟨rfl, rfl⟩ := Prod.mk.inj (some.inj (hversion.symm.trans har))
      unfold Sighting.Known
      dsimp only [m]
      rw [hstanding]
      cases hstate : v.revisionState (kind.name, kind.rowId row) with
      | none =>
        rw [hstate] at hrevision
        exact .inr ⟨kind, k, row, rfl, hrow, by rw [hrevision]; rfl⟩
      | some state =>
        rw [hstate] at hrevision
        exact ⟨state, rfl, hrevision.le, fun _ => ⟨kind, row, rfl, hstored state hstate, rfl⟩⟩
  · refine History.lawful_concat.mpr ⟨h.lawful, ?_⟩
    intro key r hb a ha har hsame _ hdisclosure
    obtain ⟨rfl, rfl⟩ := Prod.mk.inj (some.inj (hversion.symm.trans hb))
    have hknown := h.known _ a ha _ har
    unfold Sighting.Known at hknown
    rw [hsame, hstanding] at hknown
    cases hstate : v.revisionState (kind.name, kind.rowId row) with
    | none =>
      rw [hstate] at hknown hrevision
      obtain hsome | ⟨kind', k', row', hkey', hrow', hmutation⟩ := hknown
      · cases hsome
      · obtain ⟨rfl, hid⟩ := eq_kind_of_key hkey'
        obtain rfl := hdistinct kind' k' k row' row hrow' hrow hid
        obtain rfl := some.inj (hrow'.symm.trans hrow)
        rw [hmutation, hdisclosure]
        dsimp only [m]
        rw [hrevision]
        rfl
    | some state =>
      rw [hstate] at hknown hrevision
      obtain ⟨state', hstate', -, hcurrent⟩ := hknown
      obtain rfl := some.inj hstate'
      obtain ⟨kind', row', hkey', hequal, hmutation⟩ := hcurrent hrevision
      obtain ⟨rfl, -⟩ := eq_kind_of_key hkey'
      obtain rfl := hhash kind' row row' ((hstored state hstate).symm.trans hequal)
      rw [hmutation, hdisclosure]

omit [External] in
theorem not_attached_standing (hidle : ¬ v.Attached) (m : ViewMutation) :
    standing v m = .unattached := if_neg hidle

/-- **A snapshot is taken.** -/
theorem Kept.picture (hhash : Collisionfree) (h : Kept v seen)
    (hdistinct : v.Attached → RowKind.networkTarget.Distinct v) (d : DisclosureMode) :
    Kept v (seen ++ pictured v d) := by
  by_cases hattached : v.Attached
  · have hall := RowKind.Filed.distinct h.filed (hdistinct hattached)
    have hpart : ∀ l : List ViewMutation, (∀ m ∈ l, m ∈ v.bridgeSnapshotMutations d) →
        Kept v (seen ++ l.map fun m => ⟨m, standing v m, d⟩) := by
      intro l hl
      induction l using List.reverseRecOn with
      | nil => simpa using h
      | append_singleton l m ih =>
        have hrest := ih fun m' hm' => hl m' (mem_append_left _ hm')
        have hm := hl m (mem_append_right _ mem_cons_self)
        rw [map_append, ← append_assoc]
        rw [RowKind.bridgeSnapshotMutations_eq] at hm
        rcases mem_append.mp hm with hm | hm
        · rcases mem_append.mp hm with hm | hm
          · obtain ⟨kind, -, hm⟩ := mem_flatMap.mp hm
            obtain ⟨row, hrow, rfl⟩ := mem_map.mp hm
            obtain ⟨k, hk⟩ := Retention.mem_values.mp hrow
            exact hrest.picture_row hhash hattached hall hk d
          · obtain ⟨row, -, rfl⟩ := mem_map.mp hm
            exact hrest.sight_other rfl (fun _ => rfl) hattached
        · obtain ⟨row, -, rfl⟩ := mem_map.mp hm
          exact hrest.sight_other rfl (fun _ => rfl) hattached
    exact hpart _ fun m hm => hm
  · obtain ⟨hrevisions, hseen⟩ := h.idle hattached
    refine kept_of_unattached h.filed hrevisions fun a ha => ?_
    obtain ha | ha := mem_append.mp ha
    · exact hseen a ha
    · obtain ⟨m, -, rfl⟩ := mem_map.mp ha
      exact not_attached_standing hattached m

/-! ### The parts of an operation -/

/-- The view is on the way from `t.view` to the end of an operation: what it has streamed in
between counts as seen. -/
def KeptSince (t : Observed σ) (v : MaterializedView σ) : Prop :=
  ∃ news : List ViewMutation, v.stream = t.view.stream ++ news ∧
    v.mutationDisclosure = t.view.mutationDisclosure ∧
    Kept v (t.seen ++ news.map fun m => ⟨m, .assigned, t.view.mutationDisclosure⟩)

variable {t : Observed σ}

theorem KeptSince.frame (h : KeptSince t v)
    (htables : ∀ kind : RowKind, kind.table v' = kind.table v)
    (hmutations : v'.mutations = v.mutations) : KeptSince t v' := by
  obtain ⟨news, hstream, hdisclosure, hkept⟩ := h
  refine ⟨news, ?_, ?_, hkept.frame htables ?_ ?_⟩
  · rw [← hstream, stream, hmutations]
    rfl
  · rw [← hdisclosure, mutationDisclosure, hmutations]
    rfl
  · funext key
    rw [MaterializedView.revisionState, hmutations]
    rfl
  · rintro ⟨e, he, hsinks⟩
    exact ⟨e, hmutations.trans he, hsinks⟩

omit [External] in
/-- Without a sink an emission leaves the emitter as it is. -/
theorem mutations_of_not_attached (hidle : ¬ v.Attached) {emit : MutationEmitter → MutationEmitter}
    (hemit : ∀ e : MutationEmitter, e.sinks = [] → emit e = e) :
    v.mutations.map emit = v.mutations := by
  cases he : v.mutations with
  | none => rfl
  | some e =>
    have hsinks : e.sinks = [] := by
      by_contra hsinks
      exact hidle ⟨e, he, hsinks⟩
    rw [map_some, hemit e hsinks]

theorem emit_of_no_sinks (kind : RowKind) (row : kind.RowOf) {e : MutationEmitter}
    (h : e.sinks = []) : kind.emit row e = e := by
  obtain ⟨wall, basis, hemit⟩ := kind.emit_eq_upsert row e
  rw [hemit, MutationEmitter.upsert, h]
  rfl

/-- Storing rows in a view without sinks. -/
theorem Kept.store (h : Kept v seen) (hidle : ¬ v.Attached) (filed : RowKind.Filed v')
    (hmutations : v'.mutations = v.mutations) : Kept v' seen := by
  obtain ⟨hrevisions, hseen⟩ := h.idle hidle
  refine kept_of_unattached filed (fun key => ?_) hseen
  rw [← hrevisions key, MaterializedView.revisionState, hmutations]
  rfl

/-- **An emission of a row of a kind.** -/
theorem KeptSince.emitted (hhash : Collisionfree) (h : KeptSince t v)
    {k : String} {row : kind.RowOf} (he : kind.Emitted v v' k row) : KeptSince t v' := by
  obtain ⟨news, hstream, hdisclosure, hkept⟩ := h
  by_cases hattached : v.Attached
  · have hu := he.upserts hattached
    obtain ⟨e, hmutations, hsinks⟩ := hattached
    obtain ⟨envelope, revision, hhanded, -, -, hdecided⟩ := upsert_eq_handed hsinks kind row
    have hrevisions : v'.revisionState = Function.update v.revisionState (kind.name, kind.rowId row)
        (some ⟨MutationEmitter.hashRow (kind.toRow row), revision⟩) := by
      funext key
      rw [MaterializedView.revisionState, he.mutations, hmutations, map_some, hhanded]
      by_cases hkey : key = (kind.name, kind.rowId row)
      · rw [hkey, update_self]
        exact update_self ..
      · rw [update_of_ne hkey, MaterializedView.revisionState, hmutations]
        exact update_of_ne hkey ..
    have hrevision : v'.revision kind.name (kind.rowId row) = revision := by
      rw [revision_eq, hrevisions, update_self]
      rfl
    have hpublished := hkept.publish hhash he hu.attached hrevisions (fun state hstate => ?_)
      t.view.mutationDisclosure
    · refine ⟨news ++ [kind.project row revision t.view.mutationDisclosure], ?_,
        hu.disclosure.trans hdisclosure, ?_⟩
      · rw [hu.stream, hstream, hrevision, hu.disclosure, hdisclosure, append_assoc]
      · rw [map_append, ← append_assoc]
        exact hpublished
    · rw [MaterializedView.revisionState, hmutations, bind_some] at hstate
      rw [hstate] at hdecided
      exact hdecided.2
  · have hmutations := he.mutations.trans
      (mutations_of_not_attached hattached fun e => emit_of_no_sinks kind row)
    refine ⟨news, ?_, ?_, hkept.store hattached (he.filed hkept.filed) hmutations⟩
    · rw [← hstream, stream, hmutations]
      rfl
    · rw [← hdisclosure, mutationDisclosure, hmutations]
      rfl

/-- An emission or a notice that concerns no row with a revision. -/
theorem KeptSince.noted (h : KeptSince t v) (operation : MutationOperation)
    (m : MutationEmitter → ViewMutation) (wall : Option ℕ) (basis : TimestampBasis)
    (htables : ∀ kind : RowKind, kind.table v' = kind.table v)
    (hmutations : v'.mutations = v.mutations.map fun e => e.emit operation (m e) wall basis)
    (hversion : ∀ e standing d, Sighting.version? ⟨m e, standing, d⟩ = none)
    (hevicts : ∀ e standing d key, Sighting.evicts ⟨m e, standing, d⟩ key = false) :
    KeptSince t v' := by
  by_cases hattached : v.Attached
  · obtain ⟨news, hstream, hdisclosure, hkept⟩ := h
    obtain ⟨e, he, hsinks⟩ := hattached
    rw [he, map_some] at hmutations
    obtain ⟨hattached', hstream', -, hdisclosure'⟩ := emit_effect he hsinks hmutations
    have hrevisions : v'.revisionState = v.revisionState := by
      funext key
      rw [MaterializedView.revisionState, hmutations, emit_eq_handed hsinks,
        MaterializedView.revisionState, he]
      rfl
    refine ⟨news ++ [m e], by rw [hstream', hstream, append_assoc],
      hdisclosure'.trans hdisclosure, ?_⟩
    rw [map_append, ← append_assoc]
    exact (hkept.frame htables hrevisions fun _ => hattached').sight_other (hversion ..)
      (hevicts _ _ _) hattached'
  · refine h.frame htables
      (hmutations.trans (mutations_of_not_attached hattached fun e hsinks => ?_))
    rw [MutationEmitter.emit, hsinks]
    rfl

end Invariant

/-! ### Every operation -/

section Run

variable {σ : Type} [ViewSink σ] [External] {v : MaterializedView σ} {t t' : Observed σ}

omit [ViewSink σ] in
theorem KeptSince.filed (h : KeptSince t v) : RowKind.Filed v := by
  obtain ⟨_, _, _, hkept⟩ := h
  exact hkept.filed

theorem KeptSince.emitAuditEvent (h : KeptSince t v) (row : AuditEventRow) :
    KeptSince t (exec (View.emitAuditEvent row) v).2 := by
  refine h.noted .insert
    (fun e => .auditEventInserted (Bridge.Projection.auditEvent row e.disclosure))
    (some row.timestampMs) .epochMilliseconds (fun kind => ?_) ?_ (fun _ _ _ => rfl)
    (fun _ _ _ _ => rfl)
  · cases kind <;> rfl
  · rfl

theorem KeptSince.emitResourceSample (h : KeptSince t v) (row : ResourceSampleRow) :
    KeptSince t (exec (View.emitResourceSample row) v).2 := by
  refine h.noted .insert (fun _ => .resourceSampleInserted (Bridge.Projection.resourceSample row))
    (some row.timestampMs) .epochMilliseconds (fun kind => ?_) ?_ (fun _ _ _ => rfl)
    (fun _ _ _ _ => rfl)
  · cases kind <;> rfl
  · rfl

theorem emissions_keep (hhash : Collisionfree) (t : Observed σ) :
    AllEmissions fun _ m => Maintains (KeptSince t) m where
  pure := Maintains.pure
  bind := Maintains.bind
  tokenUsage row _ h := h.emitted hhash (emitted_emitTokenUsage h.filed row)
  auditEvent row _ h := h.emitAuditEvent row
  processNode row _ h := h.emitted hhash (emitted_emitProcessNode h.filed row)
  toolCall row _ h := h.emitted hhash (emitted_emitToolCall h.filed row)
  networkTarget row _ h := h.emitted hhash (emitted_emitNetworkTarget h.filed row)
  resourceSample row _ h := h.emitResourceSample row
  llmCall row _ h := h.emitted hhash (emitted_emitLlmCall h.filed row)
  processes hf v h := by
    obtain ⟨activeProcesses, hv⟩ := hf v
    rw [exec_transact, hv]
    exact h.frame (fun kind => by cases kind <;> rfl) rfl
  bookkeeping hf v h := by
    obtain ⟨pending, nextSeq, hv⟩ := hf v
    rw [exec_transact, hv]
    exact h.frame (fun kind => by cases kind <;> rfl) rfl

omit [ViewSink σ] in
/-- At the end of an operation. -/
theorem KeptSince.kept (h : KeptSince t v) : Kept v (t.seen ++ streamed t.view v) := by
  obtain ⟨news, hstream, hdisclosure, hkept⟩ := h
  rw [streamed, hstream, drop_left, hdisclosure]
  exact hkept

omit [ViewSink σ] in
theorem Kept.since (h : Kept t.view t.seen) : KeptSince t t.view :=
  ⟨[], (append_nil _).symm, rfl, by simpa using h⟩

omit [ViewSink σ] in
/-- An operation that streams nothing. -/
theorem Kept.quiet (h : Kept v t.seen) (hstream : v.stream = t.view.stream) :
    Kept v (t.seen ++ streamed t.view v) := by
  rw [streamed, hstream]
  simpa using h

omit [ViewSink σ] [External] in
theorem stream_addMutationSink (v : MaterializedView σ) (version : String) :
    (v.addMutationSink version).stream = v.stream := by
  cases he : v.mutations with
  | none => simp [MaterializedView.addMutationSink, stream, he,
      MutationEmitter.new, MutationEmitter.addSink]
  | some e =>
    cases hsinks : e.sinks <;>
      simp [MaterializedView.addMutationSink, stream, he, hsinks,
        MutationEmitter.addSink]

omit [ViewSink σ] [External] in
theorem stream_configureMutations (v : MaterializedView σ) (config : MutationEmitterConfig) :
    (v.configureMutations config).stream = v.stream := by
  cases he : v.mutations <;>
    simp [MaterializedView.configureMutations, stream, he, MutationEmitter.new,
      MutationEmitter.setConfig]

omit [ViewSink σ] in
theorem Kept.addMutationSink (h : Kept v t.seen) (version : String) :
    Kept (v.addMutationSink version) t.seen := by
  refine h.frame (fun kind => by cases kind <;> rfl) ?_ fun _ => ⟨_, rfl, by
    simp [MutationEmitter.addSink]⟩
  funext key
  cases he : v.mutations <;>
    simp [MaterializedView.addMutationSink, MaterializedView.revisionState, he,
      MutationEmitter.new, MutationEmitter.addSink]

omit [ViewSink σ] in
theorem Kept.configureMutations (h : Kept v t.seen) (config : MutationEmitterConfig) :
    Kept (v.configureMutations config) t.seen := by
  refine h.frame (fun kind => by cases kind <;> rfl) ?_ ?_
  · funext key
    cases he : v.mutations <;>
      simp [MaterializedView.configureMutations, MaterializedView.revisionState, he,
        MutationEmitter.new, MutationEmitter.setConfig]
  · rintro ⟨e, he, hsinks⟩
    exact ⟨e.setConfig config, by rw [MaterializedView.configureMutations, he], hsinks⟩

omit [ViewSink σ] in
theorem KeptSince.rowEvicted (h : KeptSince t v) (rowKind rowId : String) :
    KeptSince t (v.mutate (·.rowEvicted rowKind rowId)) := by
  by_cases hattached : v.Attached
  · obtain ⟨news, hstream, hdisclosure, hkept⟩ := h
    obtain ⟨e, he, hsinks⟩ := hattached
    have hmutations : (v.mutate (·.rowEvicted rowKind rowId)).mutations =
        some ((e.forget rowKind rowId).emit .delete (.rowEvicted rowKind rowId) none .unknown) := by
      rw [mutate, he]
      rfl
    -- the emission proper starts from a view that has forgotten the row
    obtain ⟨hattached', hstream', -, hdisclosure'⟩ :=
      emit_effect (v := { v with mutations := some (e.forget rowKind rowId) }) rfl hsinks hmutations
    have hrevisions : (v.mutate (·.rowEvicted rowKind rowId)).revisionState =
        Function.update v.revisionState (rowKind, rowId) none := by
      funext key
      rw [MaterializedView.revisionState, hmutations, emit_eq_handed (e := e.forget ..) hsinks]
      by_cases hkey : key = (rowKind, rowId)
      · rw [hkey, update_self]
        exact update_self ..
      · rw [update_of_ne hkey, MaterializedView.revisionState, he]
        exact update_of_ne hkey ..
    refine ⟨news ++ [.rowEvicted rowKind rowId], ?_, ?_, ?_⟩
    · rw [hstream', ← append_assoc, ← hstream]
      simp [stream, he, MutationEmitter.forget]
    · rw [hdisclosure', ← hdisclosure]
      simp [mutationDisclosure, he, MutationEmitter.forget,
        MutationEmitter.disclosure]
    · rw [map_append, ← append_assoc]
      exact hkept.evict hattached' (fun kind => by cases kind <;> rfl) hrevisions rfl
  · obtain ⟨news, hstream, hdisclosure, hkept⟩ := h
    have hidle : ∀ e : MutationEmitter, v.mutations = some e → e.sinks = [] := by
      intro e he
      by_contra hsinks
      exact hattached ⟨e, he, hsinks⟩
    refine ⟨news, ?_, ?_, hkept.frame (fun kind => by cases kind <;> rfl) ?_
      fun hyes => absurd hyes hattached⟩
    · rw [← hstream]
      cases he : v.mutations <;>
        simp [stream, mutate, he, hidle, MutationEmitter.rowEvicted,
          MutationEmitter.forget, MutationEmitter.emit]
    · rw [← hdisclosure]
      cases he : v.mutations <;>
        simp [mutationDisclosure, mutate, he, hidle,
          MutationEmitter.rowEvicted, MutationEmitter.forget, MutationEmitter.emit,
          MutationEmitter.disclosure]
    · funext key
      rw [(hkept.idle hattached).1 key]
      cases he : v.mutations with
      | none => simp [MaterializedView.revisionState, mutate, he]
      | some e =>
        have hnone := (hkept.idle hattached).1 key
        by_cases hkey : key = (rowKind, rowId)
        · simp [MaterializedView.revisionState, mutate, he, hidle e he,
            MutationEmitter.rowEvicted, MutationEmitter.forget, MutationEmitter.emit, hkey]
        · simpa [MaterializedView.revisionState, mutate, he, hidle e he,
            MutationEmitter.rowEvicted, MutationEmitter.forget, MutationEmitter.emit,
            update_of_ne hkey] using hnone

/-- **One operation.** -/
theorem Kept.mutate (hhash : Collisionfree) (h : Kept t.view t.seen) {op : Mutator σ}
    (hop : t.view.Attached → ¬ op.StoresSilently) :
    Kept (op.run t.view) (t.seen ++ streamed t.view (op.run t.view)) := by
  have hsince := h.since
  have hfiled := h.filed
  -- rows are stored without being published only while no sink is attached
  have hstored : op.StoresSilently → RowKind.Filed (op.run t.view) →
      (op.run t.view).mutations = t.view.mutations →
        Kept (op.run t.view) (t.seen ++ streamed t.view (op.run t.view)) := by
    intro hsilent filed hmutations
    refine (h.store (fun hattached => hop hattached hsilent) filed hmutations).quiet ?_
    rw [stream, hmutations]
    rfl
  cases op with
  | setSource source => exact KeptSince.kept (hsince.frame (fun kind => by cases kind <;> rfl) rfl)
  | addSink sink => exact KeptSince.kept (hsince.frame (fun kind => by cases kind <;> rfl) rfl)
  | addMutationSink version => exact (h.addMutationSink version).quiet (stream_addMutationSink ..)
  | configureMutations config =>
    exact (h.configureMutations config).quiet (stream_configureMutations ..)
  | emitLlmCall row => exact (hsince.emitted hhash (emitted_emitLlmCall hfiled row)).kept
  | emitTokenUsage row => exact (hsince.emitted hhash (emitted_emitTokenUsage hfiled row)).kept
  | emitAuditEvent row => exact (hsince.emitAuditEvent row).kept
  | emitProcessNode row => exact (hsince.emitted hhash (emitted_emitProcessNode hfiled row)).kept
  | emitToolCall row => exact (hsince.emitted hhash (emitted_emitToolCall hfiled row)).kept
  | emitNetworkTarget row =>
    exact (hsince.emitted hhash (emitted_emitNetworkTarget hfiled row)).kept
  | emitResourceSample row => exact (hsince.emitResourceSample row).kept
  | emitSession row => exact (hsince.emitted hhash (emitted_emitSession hfiled row)).kept
  | noticeCapability capability available detail | noticeGap fromSequence toSequence reason =>
    exact (hsince.noted _ _ _ _ (fun kind => by cases kind <;> rfl) rfl (fun _ _ _ => rfl)
      fun _ _ _ _ => rfl).kept
  | noticeRowEvicted rowKind rowId => exact (hsince.rowEvicted rowKind rowId).kept
  | ingestEvent event => exact ((emissions_keep hhash t).ingestEvent event t.view hsince).kept
  | applyAuditEvent row =>
    obtain ⟨start, stop, hobs⟩ := t.view.observe_eq (some row.timestampMs)
    exact KeptSince.kept (hsince.frame (fun kind => by cases kind <;> rfl) rfl)
  | applyResourceSample row =>
    exact KeptSince.kept (hsince.frame (fun kind => by cases kind <;> rfl) rfl)
  | applyLlmCall row =>
    have hstores := stores_applyLlmCall (v := t.view) row
    exact hstored trivial (hstores.filed rfl hfiled) hstores.mutations
  | applyTokenUsage row =>
    have hstores := stores_applyTokenUsage (v := t.view) row
    exact hstored trivial (hstores.filed rfl hfiled) hstores.mutations
  | applyToolCall row =>
    have hstores := stores_applyToolCall (v := t.view) row
    exact hstored trivial (hstores.filed rfl hfiled) hstores.mutations
  | upsertSession row =>
    have hstores := stores_upsertSession (v := t.view) row
    have hkey := key_merged .session SessionRow.merge (fun _ _ => rfl) hfiled row
    exact hstored trivial (hstores.filed hkey hfiled) hstores.mutations
  | upsertProcessNode row =>
    have hstores := stores_upsertProcessNode (v := t.view) row
    have hkey := key_merged .processNode ProcessNodeRow.merge (fun _ _ => rfl) hfiled row
    exact hstored trivial (hstores.filed hkey hfiled) hstores.mutations
  | upsertNetworkTarget row =>
    have hstores := stores_upsertNetworkTarget (v := t.view) row
    have hkey := key_merged .networkTarget NetworkTargetRow.merge (fun _ _ => rfl) hfiled row
    exact hstored trivial (hstores.filed hkey hfiled) hstores.mutations

theorem Kept.step (hhash : Collisionfree) (h : Kept t.view t.seen) {a : ObservedAction σ}
    (hok : t.Admits a) (hstep : t.step a = some t') : Kept t'.view t'.seen := by
  cases a with
  | mutate op =>
    obtain rfl := some_inj.mp hstep
    exact h.mutate hhash hok
  | snapshot disclosure =>
    obtain rfl := some_inj.mp hstep
    exact h.picture hhash hok disclosure

omit [ViewSink σ] in
theorem kept_init (sinks : List σ) (maxAuditEvents maxResourceSamples : Option ℕ) :
    Kept (Observed.init sinks maxAuditEvents maxResourceSamples).view [] := by
  refine kept_of_unattached ?_ (fun _ => rfl) fun a ha => by cases ha
  intro kind k row h
  cases kind <;> simp [Observed.init, new, RowKind.table] at h

/-- **Revision coherence.** In every run in which, once a sink is attached, every change is
published and snapshots find the ids of the network targets distinct, and with a hash that
tells rows apart: any two sightings of a row at one revision, with no eviction of it between
them, show the same content. This is about revisions that the emitter assigned, or about two
snapshots of a row that it never published. -/
theorem revisions_coherent (hhash : Collisionfree) {sinks : List σ}
    {maxAuditEvents maxResourceSamples : Option ℕ}
    (h : Reaches Observed.step Observed.Admits (.init sinks maxAuditEvents maxResourceSamples) t) :
    Coherent t.seen := by
  have hkept : Kept t.view t.seen :=
    h.invariant (I := fun t => Kept t.view t.seen) (kept_init sinks _ _)
      fun _ _ _ hs hok hstep => hs.step hhash hok hstep
  exact coherent_of_lawful hkept.lawful

end Run

/-! ### A session seen four times, and four clashes -/

section Example

deriving instance Countable for SessionRow
deriving instance Countable for LlmCallRow
deriving instance Countable for TokenUsageRow
deriving instance Countable for ToolCallRow
deriving instance Countable for ProcessNodeRow
deriving instance Countable for AuditEventRow
deriving instance Countable for NetworkTargetRow
deriving instance Countable for ResourceSampleRow
deriving instance Countable for Row

/-- A text that tells every row from every other. -/
noncomputable def rowText (row : Row) : String :=
  String.ofList ('r' :: List.replicate ((exists_injective_nat Row).choose row) ' ')

def bareSession : SessionRow := claudeSession none

def sonnetSession : SessionRow := claudeSession (some "claude-sonnet-4")

/-- The outside world of a run with these two sessions, apart from every other row. -/
@[reducible] noncomputable def claudeSessionsApart : External where
  fromStr _ := none
  valueToString _ := ""
  toVec row :=
    if row = .session bareSession then claudeSessionJson "null"
    else if row = .session sonnetSession then claudeSessionJson "\"claude-sonnet-4\""
    else rowText row
  sha256Hex text :=
    if text = claudeSessionJson "null" then
      "f7f3ef87b0435db0add876a0e3a3d5cfd4398167708e54e92e7d727f296953af"
    else if text = claudeSessionJson "\"claude-sonnet-4\"" then
      "fe35df21b769e4db2a71550ac4c45df4ed21cdd4b712bce6760f1135d2bfe879"
    else "hash of " ++ text
  parseF64 _ := none

theorem rowText_injective : Function.Injective rowText := by
  intro row row' h
  have hlength := congrArg (fun s => s.toList.length) h
  simp only [rowText, String.toList_ofList, length_cons, length_replicate,
    Nat.add_right_cancel_iff] at hlength
  exact (exists_injective_nat Row).choose_spec hlength

/-- Giving one argument a value of its own. -/
theorem injective_override {α β : Type} [DecidableEq α] {f : α → β} (hf : Function.Injective f)
    (x : α) {y : β} (hy : ∀ z, f z ≠ y) : Function.Injective fun z => if z = x then y else f z := by
  intro z z' h
  dsimp only at h
  split_ifs at h with hz hz' hz'
  · rw [hz, hz']
  · exact absurd h.symm (hy z')
  · exact absurd h (hy z)
  · exact hf h

noncomputable local instance instClaudeSessionsApart : External := claudeSessionsApart

theorem toVec_injective : Function.Injective External.toVec := by
  have hother : ∀ text : String, text.toList.head? ≠ some 'r' → ∀ row, rowText row ≠ text := by
    rintro _ hhead row rfl
    exact hhead (by simp [rowText])
  have hsonnet := injective_override rowText_injective (.session sonnetSession)
    (hother (claudeSessionJson "\"claude-sonnet-4\"") (by decide +kernel))
  refine injective_override hsonnet (.session bareSession) fun row => ?_
  split_ifs
  · decide
  · exact hother _ (by decide +kernel) row

theorem sha256Hex_injective : Function.Injective External.sha256Hex := by
  have hf : Function.Injective fun text : String => "hash of " ++ text := fun text text' h =>
    (String.append_right_inj _).mp h
  have hother : ∀ hash : String, hash.toList.head? ≠ some 'h' → ∀ text,
      "hash of " ++ text ≠ hash := by
    rintro _ hhead text rfl
    exact hhead (by simp)
  have hsonnet := injective_override hf (claudeSessionJson "\"claude-sonnet-4\"")
    (hother "fe35df21b769e4db2a71550ac4c45df4ed21cdd4b712bce6760f1135d2bfe879" (by decide))
  refine injective_override hsonnet (claudeSessionJson "null") fun text => ?_
  split_ifs
  · decide
  · exact hother _ (by decide) text

theorem collisionfree_claudeSessionsApart : Collisionfree := fun kind _ _ h =>
  kind.toRow_injective (toVec_injective (sha256Hex_injective h))

/-- The view gets a receiver, the session appears and gets its model, with a snapshot after each
change. -/
def sessionActions : List (ObservedAction NullSink) :=
  [.mutate (.addMutationSink "1.0.20"), .mutate (.emitSession bareSession),
    .snapshot .metadataOnly, .mutate (.emitSession sonnetSession), .snapshot .metadataOnly]

theorem revisions_coherent_of_one_session : ∃ t : Observed NullSink,
    t.seen.map Sighting.version? = [some (("session", "session-1"), 0),
      some (("session", "session-1"), 0), some (("session", "session-1"), 1),
      some (("session", "session-1"), 1)] ∧ Coherent t.seen := by
  let t := sessionActions.foldl (fun t a => (Observed.step t a).getD t)
    (Observed.init [.null] none none)
  have hdistinct (v : MaterializedView NullSink) (hempty : v.networkTargets.toList = []) :
      RowKind.networkTarget.Distinct v := by
    intro k k' row row' hrow
    have hmem := TreeMap.mem_toList_iff_getElem?_eq_some.mpr hrow
    rw [RowKind.table, hempty] at hmem
    cases hmem
  have hreaches : Reaches Observed.step Observed.Admits (.init [.null] none none) t :=
    ((((Reaches.refl.tail (a := .mutate (.addMutationSink "1.0.20")) (fun _ h => h) rfl).tail
      (a := .mutate (.emitSession bareSession)) (fun _ h => h) rfl).tail
      (a := .snapshot .metadataOnly) (fun _ => hdistinct _ (by decide)) rfl).tail
      (a := .mutate (.emitSession sonnetSession)) (fun _ h => h) rfl).tail
      (a := .snapshot .metadataOnly) (fun _ => hdistinct _ (by decide)) rfl
  exact ⟨t, by decide +kernel, revisions_coherent collisionfree_claudeSessionsApart hreaches⟩

end Example

section Clash

local instance instClaudeSessionsOnly' : External := claudeSessionsOnly

/-- A row that changes behind the emitter's back. -/
def changedSilently : List (ObservedAction NullSink) :=
  [.mutate (.addMutationSink "1.0.20"), .mutate (.emitSession (claudeSession none)),
    .mutate (.upsertSession (claudeSession (some "claude-sonnet-4"))), .snapshot .metadataOnly]

/-- A row that is pictured before it is published for the first time. -/
def picturedBeforePublished : List (ObservedAction NullSink) :=
  [.mutate (.upsertSession (claudeSession none)), .mutate (.addMutationSink "1.0.20"),
    .snapshot .metadataOnly, .mutate (.emitSession (claudeSession (some "claude-sonnet-4")))]

/-- A row that is published while there is no sink. -/
def withoutSink : List (ObservedAction NullSink) :=
  [.mutate (.emitSession (claudeSession none)), .snapshot .metadataOnly,
    .mutate (.emitSession (claudeSession (some "claude-sonnet-4"))), .snapshot .metadataOnly]

/-- A row that is pictured with more disclosure than it was streamed with. -/
def disclosedTwice : List (ObservedAction NullSink) :=
  [.mutate (.addMutationSink "1.0.20"), .mutate (.emitSession { claudeSession none with
      attributes := .object [("cwd", .string "/home/ada")] }),
    .snapshot .researchFull]

/-- The run ends with two sightings of a session at revision 0 that differ. -/
def Clashes (actions : List (ObservedAction NullSink)) : Prop :=
  ∃ t : Observed NullSink, run Observed.step always (.init [.null] none none) actions = some t ∧
    t.seen.map Sighting.version? =
      [some (("session", "session-1"), 0), some (("session", "session-1"), 0)] ∧
    (t.seen.map (·.mutation)).Nodup

instance : DecidablePred Clashes := fun actions =>
  decidable_of_iff ((run Observed.step always (.init [.null] none none) actions).any fun t =>
      decide (t.seen.map Sighting.version? =
        [some (("session", "session-1"), 0), some (("session", "session-1"), 0)] ∧
        (t.seen.map (·.mutation)).Nodup))
    (by simp only [Clashes, Option.any_eq_true, decide_eq_true_eq])

theorem revisions_clash : Clashes changedSilently ∧ Clashes picturedBeforePublished ∧
    Clashes withoutSink ∧ Clashes disclosedTwice := by
  decide +kernel

end Clash

end AgentSight.View
