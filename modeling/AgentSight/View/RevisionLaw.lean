import AgentSight.Lib.History
import AgentSight.View.Tracked

/-!
# The revision law of a mutation emitter

What the sinks of one emitter receive from any sequence of emissions and evictions, while
other holders of the sequence allocator take numbers in between. Under each kind and id that
is tracked, the first row published since the start or the last eviction is an insert at
revision 0; every later one is an update, one revision further if the row changed. The rows
that are only inserted carry no revision and are inserts every time.
-/

namespace AgentSight.Bridge

/-- The revision the mutation carries, when its row is tracked. -/
def ViewMutation.revision? : ViewMutation → Option ℕ
  | .sessionUpsert row => some row.revision
  | .llmCallUpsert row => some row.revision
  | .tokenUsageUpsert row => some row.revision
  | .toolCallUpsert row => some row.revision
  | .processNodeUpsert row => some row.revision
  | .networkTargetUpsert row => some row.revision
  | _ => none

end AgentSight.Bridge

namespace AgentSight.View

open Bridge (MutationEmitter MutationEmitterConfig MutationOperation RevisionState TimestampBasis
  ViewMutation ViewMutationEnvelope)

/-- A call on an emitter, or a number taken from its allocator by another holder. -/
inductive EmitterCall where
  | upsert (kind : RowKind) (row : kind.RowOf)
  | auditEvent (row : AuditEventRow)
  | resourceSample (row : ResourceSampleRow)
  | rowEvicted (rowKind rowId : String)
  | capabilityChanged (capability : String) (available : Bool) (detail : Option String)
  | captureGap (fromSequence toSequence : ℕ) (reason : String)
  | allocated

/-- A call that published something, with the envelope. -/
structure Entry where
  call : EmitterCall
  envelope : ViewMutationEnvelope

/-- An emitter with the history of what it has published. -/
structure EmitterRun where
  emitter : MutationEmitter
  trace : List Entry

section Law

variable [External]

variable (kind : RowKind)

variable (row : kind.RowOf)

theorem RowKind.revision?_project (r : ℕ)
    (d : Bridge.DisclosureMode) : (kind.project row r d).revision? = some r := by
  cases kind <;> rfl

theorem RowKind.rowKind_project (r : ℕ)
    (d : Bridge.DisclosureMode) : (kind.project row r d).rowKind = kind.name := by
  cases kind <;> rfl

theorem RowKind.rowId?_project (r : ℕ)
    (d : Bridge.DisclosureMode) : (kind.project row r d).rowId? = some (kind.rowId row) := by
  cases kind <;> rfl

omit [External] in
theorem RowKind.toRow_injective : Function.Injective kind.toRow := by
  intro row row' h
  cases kind <;> (injection h)

namespace EmitterCall

/-- The call hands an envelope to the sinks. -/
def publishes : EmitterCall → Bool
  | .allocated => false
  | _ => true

def run (e : MutationEmitter) : EmitterCall → MutationEmitter
  | .upsert kind row => kind.emit row e
  | .auditEvent row => e.auditEvent row
  | .resourceSample row => e.resourceSample row
  | .rowEvicted rowKind rowId => e.rowEvicted rowKind rowId
  | .capabilityChanged capability available detail =>
    e.capabilityChanged capability available detail
  | .captureGap fromSequence toSequence reason => e.captureGap fromSequence toSequence reason
  | .allocated => { e with config := { e.config with sequence := e.config.sequence + 1 } }

end EmitterCall

/-- The row last published under the key since its last eviction, with its envelope. -/
def lastOf (key : RowKey) (trace : List Entry) : Option (Row × ViewMutationEnvelope) :=
  trace.foldl (fun last entry =>
    match entry.call with
    | .upsert kind row =>
      if (kind.name, kind.rowId row) = key then some (kind.toRow row, entry.envelope) else last
    | .rowEvicted rowKind rowId => if (rowKind, rowId) = key then none else last
    | _ => last) none

/-- What the law says of an entry that comes after `pre`. -/
def Entry.Lawful (entry : Entry) (pre : List Entry) : Prop :=
  match entry.call with
  | .upsert kind row =>
    entry.envelope.mutation.rowKind = kind.name ∧
      entry.envelope.mutation.rowId? = some (kind.rowId row) ∧
      match lastOf (kind.name, kind.rowId row) pre with
      | none =>
        entry.envelope.operation = .insert ∧ entry.envelope.mutation.revision? = some 0
      | some (row', previous) =>
        entry.envelope.operation = .update ∧ entry.envelope.mutation.revision? =
          previous.mutation.revision?.map fun r => if kind.toRow row = row' then r else r + 1
  | .auditEvent _ | .resourceSample _ =>
    entry.envelope.operation = .insert ∧ entry.envelope.mutation.revision? = none
  | .rowEvicted rowKind rowId =>
    entry.envelope.operation = .delete ∧ entry.envelope.mutation = .rowEvicted rowKind rowId
  | _ => entry.envelope.mutation.revision? = none

namespace EmitterRun

/-- An emitter with `n + 1` sinks that has published nothing. -/
def init (config : MutationEmitterConfig) (n : ℕ) : EmitterRun where
  emitter := MutationEmitter.addSink^[n + 1] (.new config)
  trace := []

/-- One call; the envelopes its first sink receives are what it published. -/
def step (t : EmitterRun) (call : EmitterCall) : EmitterRun :=
  let emitter := call.run t.emitter
  let published := (emitter.sinks.headD []).drop (t.emitter.sinks.headD []).length
  { emitter, trace := t.trace ++ published.map fun envelope => ⟨call, envelope⟩ }

def after (t : EmitterRun) (calls : List EmitterCall) : EmitterRun := calls.foldl step t

end EmitterRun

/-! ### What one call publishes -/

/-- The emitter once it has handed an envelope to its sinks. -/
def handed (e : MutationEmitter) (revisions : RowKey → Option RevisionState)
    (envelope : ViewMutationEnvelope) : MutationEmitter where
  config := { e.config with sequence := e.config.sequence + 1 }
  sinks := e.sinks.map (· ++ [envelope])
  revisions

variable {e : MutationEmitter} {operation : MutationOperation} {m : ViewMutation}
  {wall : Option ℕ} {basis : TimestampBasis}

omit [External] in
theorem emit_eq_handed (hsinks : e.sinks ≠ []) :
    e.emit operation m wall basis = handed e e.revisions (e.envelope operation m wall basis) := by
  rw [MutationEmitter.emit, if_neg (by simpa using hsinks)]
  rfl

/-- What an emission of a tracked row decides and publishes. -/
theorem upsert_eq_handed (hsinks : e.sinks ≠ []) (kind : RowKind) (row : kind.RowOf) :
    ∃ envelope revision, kind.emit row e =
      handed e (Function.update e.revisions (kind.name, kind.rowId row)
        (some ⟨MutationEmitter.hashRow (kind.toRow row), revision⟩)) envelope ∧
      envelope.sequence = e.config.sequence + 1 ∧
      envelope.mutation = kind.project row revision e.disclosure ∧
      match e.revisions (kind.name, kind.rowId row) with
      | none => envelope.operation = .insert ∧ revision = 0
      | some state => envelope.operation = .update ∧ revision =
          if state.contentHash = MutationEmitter.hashRow (kind.toRow row) then state.revision
          else state.revision + 1 := by
  obtain ⟨wall, basis, hemit⟩ := kind.emit_eq_upsert row e
  rw [hemit, MutationEmitter.upsert, if_neg (by simpa using hsinks)]
  unfold MutationEmitter.decide
  dsimp only
  cases hstate : e.revisions (kind.name, kind.rowId row) with
  | none =>
    exact ⟨_, 0, emit_eq_handed hsinks, rfl, rfl, rfl, rfl⟩
  | some state =>
    dsimp only
    split_ifs with hhash
    · -- an unchanged row leaves the state as it is
      have hself : Function.update e.revisions (kind.name, kind.rowId row)
          (some ⟨MutationEmitter.hashRow (kind.toRow row), state.revision⟩) = e.revisions := by
        rw [← hhash, ← hstate]
        exact Function.update_eq_self ..
      rw [emit_eq_handed hsinks]
      exact ⟨_, state.revision, by rw [hself], rfl, rfl, rfl, rfl⟩
    · exact ⟨_, state.revision + 1, emit_eq_handed hsinks, rfl, rfl, rfl, rfl⟩

/-! ### Every run -/

/-- The revision state that belongs to the row last published under a key. -/
def stateOf : Option (Row × ViewMutationEnvelope) → Option RevisionState
  | none => none
  | some (row, envelope) =>
    envelope.mutation.revision?.map fun r => ⟨MutationEmitter.hashRow row, r⟩

namespace EmitterRun

/-- What holds of every emitter with a sink that has taken `calls`. -/
structure Sound (calls : List EmitterCall) (t : EmitterRun) : Prop where
  attached : t.emitter.sinks ≠ []
  logs : ∀ sink ∈ t.emitter.sinks, sink = t.trace.map (·.envelope)
  published : t.trace.map (·.call) = calls.filter (·.publishes)
  revisions : ∀ key, t.emitter.revisions key = stateOf (lastOf key t.trace)
  last : ∀ key row envelope, lastOf key t.trace = some (row, envelope) →
    envelope.mutation.revision?.isSome ∧
      ∃ (kind : RowKind) (row' : kind.RowOf), .upsert kind row' ∈ calls ∧
        (kind.name, kind.rowId row') = key ∧ kind.toRow row' = row
  numbered : ∀ entry ∈ t.trace, entry.envelope.sequence ≤ t.emitter.config.sequence
  increasing : (t.trace.map (·.envelope.sequence)).Pairwise (· < ·)
  lawful : History.Lawful (fun pre entry => entry.Lawful pre) t.trace

/-- No two rows given to the emitter under one key have the same hash. -/
def Collisionless (calls : List EmitterCall) : Prop :=
  ∀ (kind : RowKind) (row row' : kind.RowOf), .upsert kind row ∈ calls →
    .upsert kind row' ∈ calls → kind.rowId row = kind.rowId row' →
      MutationEmitter.hashRow (kind.toRow row) = MutationEmitter.hashRow (kind.toRow row') →
        row = row'

variable {t : EmitterRun} {calls : List EmitterCall} {call : EmitterCall}
  {envelope : ViewMutationEnvelope}

theorem lastOf_concat (key : RowKey) (trace : List Entry) (entry : Entry) :
    lastOf key (trace ++ [entry]) =
      match entry.call with
      | .upsert kind row =>
        if (kind.name, kind.rowId row) = key then some (kind.toRow row, entry.envelope)
        else lastOf key trace
      | .rowEvicted rowKind rowId => if (rowKind, rowId) = key then none else lastOf key trace
      | _ => lastOf key trace := by
  rw [lastOf, List.foldl_concat]
  rfl

/-- A call that hands over one envelope adds it to the trace. -/
theorem step_of_handed (h : t.Sound calls) {revisions : RowKey → Option RevisionState}
    (hrun : call.run t.emitter = handed t.emitter revisions envelope) :
    t.step call =
      { emitter := handed t.emitter revisions envelope
        trace := t.trace ++ [⟨call, envelope⟩] } := by
  obtain ⟨sink, sinks, hsinks⟩ := List.exists_cons_of_ne_nil h.attached
  rw [step, hrun]
  simp [handed, hsinks]

/-- **One call.** What it hands over, what that leaves tracked, and that it is lawful. -/
theorem Sound.handed (h : t.Sound calls) {revisions : RowKey → Option RevisionState}
    (hcall : call.publishes = true)
    (hrun : call.run t.emitter = View.handed t.emitter revisions envelope)
    (hseq : envelope.sequence = t.emitter.config.sequence + 1)
    (hrevisions : ∀ key, revisions key = stateOf (lastOf key (t.trace ++ [⟨call, envelope⟩])))
    (hlast : ∀ key row envelope', lastOf key (t.trace ++ [⟨call, envelope⟩]) =
      some (row, envelope') → envelope'.mutation.revision?.isSome ∧
        ∃ (kind : RowKind) (row' : kind.RowOf), .upsert kind row' ∈ calls ++ [call] ∧
          (kind.name, kind.rowId row') = key ∧ kind.toRow row' = row)
    (hlawful : Entry.Lawful ⟨call, envelope⟩ t.trace) :
    (t.step call).Sound (calls ++ [call]) := by
  rw [step_of_handed h hrun]
  refine ⟨?_, ?_, ?_, hrevisions, hlast, ?_, ?_, ?_⟩
  · simpa [View.handed] using h.attached
  · intro sink hsink
    obtain ⟨old, hold, rfl⟩ := List.mem_map.mp hsink
    rw [h.logs old hold, List.map_append]
    rfl
  · rw [List.map_append, h.published, List.filter_append, List.filter_singleton, hcall]
    rfl
  · intro entry hentry
    rcases List.mem_append.mp hentry with hentry | hentry
    · exact (h.numbered entry hentry).trans (Nat.le_succ _)
    · obtain rfl := List.mem_singleton.mp hentry
      exact hseq.le
  · rw [List.map_append, List.pairwise_append]
    refine ⟨h.increasing, List.pairwise_singleton _ _, fun n hn n' hn' => ?_⟩
    obtain ⟨entry, hentry, rfl⟩ := List.mem_map.mp hn
    obtain rfl := List.mem_singleton.mp hn'
    have hle := h.numbered entry hentry
    dsimp only
    omega
  · exact History.lawful_concat.mpr ⟨h.lawful, hlawful⟩

theorem sound_init (config : MutationEmitterConfig) (n : ℕ) : (init config n).Sound [] := by
  have hsinks n : (MutationEmitter.addSink^[n] (.new config)).sinks = List.replicate n [] ∧
      (MutationEmitter.addSink^[n] (.new config)).revisions = fun _ => none := by
    induction n with
    | zero => exact ⟨rfl, rfl⟩
    | succ n ih =>
      rw [Function.iterate_succ_apply', List.replicate_succ', MutationEmitter.addSink]
      rw [ih.1, ih.2]
      exact ⟨rfl, rfl⟩
  refine ⟨?_, ?_, rfl, ?_, ?_, ?_, List.Pairwise.nil, History.lawful_nil⟩
  · rw [init, (hsinks (n + 1)).1]
    simp
  · intro sink hsink
    rw [init, (hsinks (n + 1)).1] at hsink
    exact List.eq_of_mem_replicate hsink
  · intro key
    rw [init, (hsinks (n + 1)).2]
    rfl
  · intro key row envelope hlast
    simp [init, lastOf] at hlast
  · intro entry hentry
    simp [init] at hentry

/-- A call that publishes something which belongs to no tracked row. -/
theorem Sound.emit (h : t.Sound calls) {operation : MutationOperation}
    {m : ViewMutation} {wall : Option ℕ} {basis : TimestampBasis}
    (hpublishes : call.publishes = true)
    (hrun : call.run t.emitter = t.emitter.emit operation m wall basis)
    (hcall : ∀ envelope key, lastOf key (t.trace ++ [⟨call, envelope⟩]) = lastOf key t.trace)
    (hlawful : ∀ envelope : ViewMutationEnvelope, envelope.operation = operation →
      envelope.mutation = m → Entry.Lawful ⟨call, envelope⟩ t.trace) :
    (t.step call).Sound (calls ++ [call]) := by
  refine h.handed hpublishes (hrun.trans (emit_eq_handed h.attached)) rfl ?_ ?_ (hlawful _ rfl rfl)
  · intro key
    rw [hcall]
    exact h.revisions key
  · intro key row envelope' hlast
    rw [hcall] at hlast
    obtain ⟨hsome, kind, row', hmem, hkey⟩ := h.last key row envelope' hlast
    exact ⟨hsome, kind, row', List.mem_append_left _ hmem, hkey⟩

/-- **A run of a call.** -/
theorem Sound.step (h : t.Sound calls) (hhash : Collisionless (calls ++ [call])) :
    (t.step call).Sound (calls ++ [call]) := by
  cases call with
  | upsert kind row =>
    obtain ⟨envelope, revision, hrun, hseq, hmutation, hdecision⟩ :=
      upsert_eq_handed h.attached kind row
    have hrevision : envelope.mutation.revision? = some revision := by
      rw [hmutation, kind.revision?_project]
    refine h.handed rfl hrun hseq ?_ ?_ ?_
    · intro key
      rw [lastOf_concat]
      dsimp only
      split_ifs with hkey
      · rw [← hkey, Function.update_self, stateOf, hrevision]
        rfl
      · rw [Function.update_of_ne (Ne.symm hkey)]
        exact h.revisions key
    · intro key row' envelope' hlast
      rw [lastOf_concat] at hlast
      dsimp only at hlast
      split_ifs at hlast with hkey
      · obtain ⟨rfl, rfl⟩ := Prod.mk.inj (Option.some.inj hlast)
        exact ⟨by rw [hrevision]; rfl, kind, row, by simp, hkey, rfl⟩
      · obtain ⟨hsome, kind', row'', hmem, hkey'⟩ := h.last key row' envelope' hlast
        exact ⟨hsome, kind', row'', List.mem_append_left _ hmem, hkey'⟩
    · refine ⟨by rw [hmutation, kind.rowKind_project], by rw [hmutation, kind.rowId?_project], ?_⟩
      rw [h.revisions] at hdecision
      cases hlast : lastOf (kind.name, kind.rowId row) t.trace with
      | none =>
        rw [hlast] at hdecision
        obtain ⟨hoperation, rfl⟩ := hdecision
        exact ⟨hoperation, hrevision⟩
      | some last =>
        obtain ⟨row', previous⟩ := last
        obtain ⟨hsome, kind', old, hold, hkey, rfl⟩ := h.last _ _ _ hlast
        obtain ⟨r, hr⟩ := Option.isSome_iff_exists.mp hsome
        rw [hlast, stateOf, hr] at hdecision
        obtain ⟨hoperation, rfl⟩ := hdecision
        -- the same kind and id, so the hashes compare the rows
        obtain ⟨hname, hid⟩ := Prod.mk.inj hkey
        obtain rfl := RowKind.name_injective hname
        refine ⟨hoperation, ?_⟩
        rw [hrevision, hr, Option.map_some]
        by_cases hsame : kind'.toRow row = kind'.toRow old
        · rw [if_pos hsame, if_pos (congrArg _ hsame.symm)]
        · rw [if_neg hsame, if_neg]
          intro hhashes
          refine hsame (congrArg _ ?_)
          exact hhash kind' row old (by simp) (List.mem_append_left _ hold) hid.symm hhashes.symm
  | rowEvicted rowKind rowId =>
    refine h.handed rfl (emit_eq_handed (e := t.emitter.forget rowKind rowId) h.attached) rfl ?_
      ?_ ⟨rfl, rfl⟩
    · intro key
      rw [lastOf_concat]
      dsimp only
      split_ifs with hkey
      · rw [← hkey]
        exact Function.update_self ..
      · exact (Function.update_of_ne (Ne.symm hkey) ..).trans (h.revisions key)
    · intro key row envelope' hlast
      rw [lastOf_concat] at hlast
      dsimp only at hlast
      split_ifs at hlast
      obtain ⟨hsome, kind, row', hmem, hkey'⟩ := h.last key row envelope' hlast
      exact ⟨hsome, kind, row', List.mem_append_left _ hmem, hkey'⟩
  | auditEvent row | resourceSample row =>
    refine h.emit rfl rfl (fun envelope key => lastOf_concat ..) fun envelope hoperation hm => ?_
    exact ⟨hoperation, by rw [hm]; rfl⟩
  | capabilityChanged capability available detail | captureGap fromSequence toSequence reason =>
    refine h.emit rfl rfl (fun envelope key => lastOf_concat ..) fun envelope _ hm => ?_
    change envelope.mutation.revision? = none
    rw [hm]
    rfl
  | allocated =>
    have hstep : t.step .allocated =
        { t with emitter := EmitterCall.run t.emitter .allocated } := by
      simp [step, EmitterCall.run]
    rw [hstep]
    refine ⟨h.attached, h.logs, ?_, h.revisions, ?_, ?_, h.increasing, h.lawful⟩
    · rw [List.filter_append]
      exact h.published.trans (List.append_nil _).symm
    · intro key row envelope' hlast
      obtain ⟨hsome, kind, row', hmem, hkey'⟩ := h.last key row envelope' hlast
      exact ⟨hsome, kind, row', List.mem_append_left _ hmem, hkey'⟩
    · exact fun entry hentry => (h.numbered entry hentry).trans (Nat.le_succ _)

theorem Sound.after (h : t.Sound calls) (more : List EmitterCall)
    (hhash : Collisionless (calls ++ more)) : (t.after more).Sound (calls ++ more) := by
  induction more generalizing t calls with
  | nil => rwa [List.append_nil]
  | cons call more ih =>
    rw [List.append_cons] at hhash ⊢
    refine ih (h.step ?_) hhash
    exact fun kind row row' hrow hrow' =>
      hhash kind row row' (List.mem_append_left _ hrow) (List.mem_append_left _ hrow')

/-- **The revision law.** Over every sequence of calls on an emitter with at least one sink, in
which the hash tells the rows given under one key apart: every call but a foreign allocation
hands one envelope to each sink, with increasing sequences. A tracked row is an insert at
revision 0 when it is the first under its kind and id since the start or an eviction; it is an
update otherwise, at the previous revision if it equals the row published before and at the
next one if not. Audit rows and samples are inserts without a revision. -/
theorem revision_law (config : MutationEmitterConfig) (n : ℕ) (calls : List EmitterCall)
    (hhash : Collisionless calls) :
    let t := (init config n).after calls
    (∀ sink ∈ t.emitter.sinks, sink = t.trace.map (·.envelope)) ∧
      t.trace.map (·.call) = calls.filter (·.publishes) ∧
      (t.trace.map (·.envelope.sequence)).Pairwise (· < ·) ∧
      ∀ pre entry post, t.trace = pre ++ entry :: post → entry.Lawful pre := by
  have h := (sound_init config n).after calls (by rwa [List.nil_append])
  exact ⟨h.logs, h.published, h.increasing, h.lawful⟩

end EmitterRun

end Law

/-! ### A session, and an audit row published twice -/

section Example

def claudeSession (model : Option String) : SessionRow where
  id := "session-1"
  agentType := "claude"
  startTimestampMs := 1000
  endTimestampMs := none
  status := "observed"
  model
  inputTokens := 0
  outputTokens := 0
  totalTokens := 0
  viewSource := agentNativeSource
  confidence := none
  attributes := .object []

/-- The text `serde_json` writes for a session with this model. -/
def claudeSessionJson (model : String) : String :=
  "\x7b\"id\":\"session-1\",\"agent_type\":\"claude\",\"start_timestamp_ms\":1000" ++
    ",\"end_timestamp_ms\":null,\"status\":\"observed\",\"model\":" ++ model ++
    ",\"input_tokens\":0,\"output_tokens\":0,\"total_tokens\":0" ++
    ",\"view_source\":\"agent_native_session\",\"confidence\":null,\"attributes\":\x7b\x7d\x7d"

/-- The outside world of a run with these two rows. -/
@[reducible] def claudeSessionsOnly : External where
  fromStr _ := none
  valueToString _ := ""
  toVec row :=
    if row = .session (claudeSession none) then claudeSessionJson "null"
    else if row = .session (claudeSession (some "claude-sonnet-4")) then
      claudeSessionJson "\"claude-sonnet-4\""
    else ""
  sha256Hex text :=
    if text = claudeSessionJson "null" then
      "f7f3ef87b0435db0add876a0e3a3d5cfd4398167708e54e92e7d727f296953af"
    else if text = claudeSessionJson "\"claude-sonnet-4\"" then
      "fe35df21b769e4db2a71550ac4c45df4ed21cdd4b712bce6760f1135d2bfe879"
    else "e3b0c44298fc1c149afbf4c8996fb92427ae41e4649b934ca495991b7852b855"
  parseF64 _ := none

local instance instClaudeSessionsOnly : External := claudeSessionsOnly

/-- The session appears, gets its model, is published again, is evicted and comes back. -/
def sessionCalls : List EmitterCall :=
  [.upsert .session (claudeSession none), .upsert .session (claudeSession (some "claude-sonnet-4")),
    .upsert .session (claudeSession (some "claude-sonnet-4")), .rowEvicted "session" "session-1",
    .upsert .session (claudeSession none)]

theorem revision_law_of_one_session :
    let t := (EmitterRun.init (.default "1.0.20") 0).after sessionCalls
    t.trace.map (·.envelope.mutation.revision?) = [some 0, some 1, some 1, none, some 0] ∧
      (t.trace.map (·.envelope.sequence)).Pairwise (· < ·) ∧
      ∀ pre entry post, t.trace = pre ++ entry :: post → entry.Lawful pre := by
  have hhash : EmitterRun.Collisionless sessionCalls := by
    have hrows (kind : RowKind) row (hrow : .upsert kind row ∈ sessionCalls) :
        kind.toRow row = .session (claudeSession none) ∨
          kind.toRow row = .session (claudeSession (some "claude-sonnet-4")) := by
      simp only [sessionCalls, List.mem_cons, EmitterCall.upsert.injEq, List.not_mem_nil,
        reduceCtorEq, or_false, false_or] at hrow
      obtain ⟨rfl, hrow⟩ | ⟨rfl, hrow⟩ | ⟨rfl, hrow⟩ | ⟨rfl, hrow⟩ := hrow <;>
        obtain rfl := eq_of_heq hrow <;> simp [RowKind.toRow]
    intro kind row row' hrow hrow' _ hequal
    refine kind.toRow_injective ?_
    have hne : Bridge.MutationEmitter.hashRow (.session (claudeSession none)) ≠
        Bridge.MutationEmitter.hashRow (.session (claudeSession (some "claude-sonnet-4"))) := by
      decide +kernel
    obtain h | h := hrows kind row hrow <;> obtain h' | h' := hrows kind row' hrow' <;>
      rw [h, h'] at hequal ⊢
    · exact absurd hequal hne
    · exact absurd hequal.symm hne
  obtain ⟨-, -, hincreasing, hlawful⟩ := EmitterRun.revision_law (.default "1.0.20") 0 _ hhash
  exact ⟨by decide +kernel, hincreasing, hlawful⟩

/-- An audit row published twice is an insert both times, without a revision. -/
theorem audit_inserted_twice :
    let t := (EmitterRun.init (.default "1.0.20") 0).after
      [.auditEvent default, .auditEvent default]
    t.trace.map (fun entry => (entry.envelope.mutation.rowKind, entry.envelope.mutation.rowId?,
        entry.envelope.operation, entry.envelope.mutation.revision?)) =
      [("audit_event", some "", .insert, none), ("audit_event", some "", .insert, none)] := by
  decide

end Example

end AgentSight.View
