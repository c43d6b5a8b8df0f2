import AgentSight.Lib.Gather
import AgentSight.Session.Turns

/-!
# Messages that are logged as several records

Claude logs a message as one or more records with one message id and one request id, and the usage
that they report only grows. The totals of a session count the first record of a request, and the
responses keep the largest usage of a message, which is that of its last record. So the two agree
exactly if the first record of each message is already the first of its request and reports what the
last one does, and no sum overflows (`claude_accounts_iff`).
-/

namespace AgentSight.Session

open KeyedTable List Transcript
open WrappingSum (toInt_sum wrap_eq_iff wrap_le)
open Json (Value)

/-- The counts that a record reports. -/
inductive UsageField where
  | input
  | output
  | cacheCreation
  | cacheRead
  deriving DecidableEq

namespace UsageField

/-- The key of the count in a record. -/
def name : UsageField → String
  | input => "input_tokens"
  | output => "output_tokens"
  | cacheCreation => "cache_creation_input_tokens"
  | cacheRead => "cache_read_input_tokens"

/-- The count of a total. -/
def ofTotal : UsageField → TokenUsage → Int64
  | input => TokenUsage.inputTokens
  | output => TokenUsage.outputTokens
  | cacheCreation => TokenUsage.cacheCreationTokens
  | cacheRead => TokenUsage.cacheReadTokens

end UsageField

/-- The counts that both the totals and the responses have. -/
inductive Component where
  | input
  | output
  | cache
  deriving DecidableEq

instance decidableForallComponent {p : Component → Prop} [DecidablePred p] : Decidable (∀ c, p c) :=
  decidable_of_iff (p .input ∧ p .output ∧ p .cache) ⟨fun h c => by cases c with
      | input => exact h.1
      | output => exact h.2.1
      | cache => exact h.2.2, fun h => ⟨h _, h _, h _⟩⟩

namespace Component

/-- What is reported for the count. -/
def fields : Component → List UsageField
  | input => [.input]
  | output => [.output]
  | cache => [.cacheCreation, .cacheRead]

/-- The count of a total. -/
def ofTotal (c : Component) (u : TokenUsage) : ℤ := (c.fields.map fun f => (f.ofTotal u).toInt).sum

/-- The count of a response. -/
def ofResponse : Component → LlmResponse → ℕ
  | input, r => r.inputTokens
  | output, r => r.outputTokens
  | cache, r => r.cacheTokens

/-- The usage of a record as the totals read it. -/
def counted (c : Component) (usage : Value) : ℤ :=
  (c.fields.map fun f => (jsonI64 usage f.name).toInt).sum

/-- The usage of a record as the responses read it. -/
def carried (c : Component) (usage : Value) : ℕ := (c.fields.map fun f => jsonU64 usage f.name).sum

end Component

def countsOf (r : LlmResponse) (c : Component) : ℕ := c.ofResponse r

/-! ### What a transcript logs -/

/-- An assistant record and the prompt that it belongs to. -/
structure Logged where
  promptIndex : ℕ
  record : Value
  deriving DecidableEq

namespace Logged

variable (m : Logged)

def messageId : String := (strAt m.record ["message", "id"]).getD ""

def requestId : Option String := m.record.strField "requestId"

def usage : Value := (m.record.pointer ["message", "usage"]).getD .null

def messageKey : ℕ × String := (m.promptIndex, m.messageId)

def counted (c : Component) : ℤ := c.counted m.usage

def carried (c : Component) : ℕ := c.carried m.usage

/-- The usage of the record in its response: a sum of two `u64` wraps around. -/
def taken : Component → ℕ
  | .cache => m.carried .cache % 2 ^ 64
  | c => m.carried c

/-- The record names its message and its request, and reports a usage of natural numbers. -/
structure Identified : Prop where
  messageId : m.messageId ≠ ""
  requestId : m.requestId.isSome = true
  usage : m.usage.asObject.isSome = true
  natural : ∀ c : Component, ∀ f ∈ c.fields, ∀ value ∈ m.usage.get f.name,
    value.asU64.isSome = true

/-- A later record of the same message is of the same request and prompt, and its usage is no
smaller. -/
def GoesOn (m' : Logged) : Prop :=
  m.messageId = m'.messageId →
    m.requestId = m'.requestId ∧ m.promptIndex = m'.promptIndex ∧ ∀ c, m.carried c ≤ m'.carried c

instance : DecidableRel GoesOn := fun m m' =>
  inferInstanceAs (Decidable (m.messageId = m'.messageId →
    m.requestId = m'.requestId ∧ m.promptIndex = m'.promptIndex ∧ ∀ c, m.carried c ≤ m'.carried c))

instance : Decidable m.Identified :=
  decidable_of_iff (m.messageId ≠ "" ∧ m.requestId.isSome = true ∧ m.usage.asObject.isSome = true ∧
      ∀ c : Component, ∀ f ∈ c.fields, ∀ value ∈ m.usage.get f.name, value.asU64.isSome = true)
    ⟨fun h => ⟨h.1, h.2.1, h.2.2.1, h.2.2.2⟩, fun h => ⟨h.1, h.2, h.3, h.4⟩⟩

end Logged

section

variable [Crates]

/-- The assistant records among those that are read from the state on. -/
def loggedFrom (s : Transcript) : List Value → List Logged
  | [] => []
  | obj :: records =>
    (if typeOf obj = some "assistant" then [⟨s.currentPromptIndex, obj⟩] else []) ++
      loggedFrom (s.claudeRecord obj) records

def logged (records : List Value) : List Logged := loggedFrom {} records

/-- A Claude transcript without result records. The records of a message are of one request and one
prompt, and their usage only grows. -/
structure SplitTranscript (records : List Value) : Prop where
  noResult : ∀ obj ∈ records, typeOf obj ≠ some "result"
  identified : ∀ m ∈ logged records, m.Identified
  together : (logged records).Pairwise Logged.GoesOn

end

/-! ### What should hold of a session, and when it does -/

def responseKey (r : LlmResponse) : ℕ × String := (r.promptIndex, r.sourceId)

/-- The totals are the sums over the responses, and each message is one response, with the usage of
its last record. -/
structure Accounts (messages : List Logged) (session : AgentSession) : Prop where
  totals : ∀ c : Component,
    c.ofTotal session.usage = (session.llmResponses.map fun r => (c.ofResponse r : ℤ)).sum
  once : (session.llmResponses.map responseKey).Nodup
  all : ∀ key, key ∈ session.llmResponses.map responseKey ↔ key ∈ messages.map Logged.messageKey
  last : ∀ r ∈ session.llmResponses, ∀ m,
    latest Logged.messageKey messages (responseKey r) = some m →
    ∀ c, c.ofResponse r = m.carried c

/-- The first record of a message counts if it is the first one of its request. -/
def countedFirst (messages : List Logged) (c : Component) (m : Logged) : ℤ :=
  if m ∈ firsts Logged.requestId messages then m.counted c else 0

/-- For every message, what counts of its first record is what its last one reports. -/
def FirstIsLast (messages : List Logged) : Prop :=
  ∀ m ∈ firsts Logged.messageKey messages, ∀ last ∈ latest Logged.messageKey messages m.messageKey,
      ∀ c, countedFirst messages c m = last.carried c

/-- No sum of counts overflows: neither those of the first records of the requests nor those that a
response makes. -/
structure Fits (messages : List Logged) : Prop where
  totals : ∀ c : Component, ∀ f ∈ c.fields, ((firsts Logged.requestId messages).map fun m =>
    (jsonI64 m.usage f.name).toInt).sum < 2 ^ 63
  responses : ∀ m ∈ messages, m.carried .cache < 2 ^ 64

/-! ### What an assistant record adds -/

section Assistant

variable {m : Logged}

theorem Logged.Identified.requestId_eq (h : m.Identified) :
    m.requestId = some (claudeUsageKey m.record) := by
  obtain ⟨id, hid⟩ := Option.isSome_iff_exists.mp h.requestId
  obtain ⟨value, hvalue, hstr⟩ := Option.bind_eq_some_iff.mp hid
  rw [hid, claudeUsageKey, hvalue, Option.some_or, Option.some_or, Option.bind_some, hstr]
  rfl

theorem Logged.Identified.sourceId_eq (h : m.Identified) :
    claudeSourceCompletionId m.record = m.messageId := by
  cases hid : strAt m.record ["message", "id"] with
  | none =>
    have hempty : m.messageId = "" := by rw [Logged.messageId, hid, Option.getD_none]
    exact absurd hempty h.messageId
  | some id =>
    obtain ⟨value, hvalue, hstr⟩ := Option.bind_eq_some_iff.mp hid
    rw [claudeSourceCompletionId, hvalue, Option.some_or, Option.some_or, Option.bind_some, hstr,
      Logged.messageId, hid]

theorem Logged.Identified.pointer_usage (h : m.Identified) :
    m.record.pointer ["message", "usage"] = some m.usage := by
  have husage := h.usage
  cases hpointer : m.record.pointer ["message", "usage"] with
  | none =>
    rw [Logged.usage, hpointer] at husage
    cases husage
  | some usage => rw [Logged.usage, hpointer, Option.getD_some]

theorem Logged.Identified.logs (h : m.Identified) : Transcript.claudeLogs m.record = true := by
  rw [claudeLogs, h.pointer_usage, Option.bind_some, h.usage, Bool.or_true]

variable [Crates] {s : Transcript}

theorem countsOf_claudeResponse (s : Transcript) (m : Logged) :
    countsOf (s.claudeResponse m.record) = m.taken := by
  funext c
  cases c <;> rfl

/-- The state that the usage of an assistant record is counted in. -/
def withModel (s : Transcript) (obj : Value) : Transcript :=
  { s with model := s.model.or (strAt obj ["message", "model"]) }

theorem claudeAssistant_eq (h : m.Identified) :
    ∃ s', SameUsage ((withModel s m.record).countUsage m.record) s' ∧ s.claudeAssistant m.record =
        s'.logResponse ((withModel s m.record).claudeResponse m.record) := by
  refine ⟨_, sameUsage_toolUses _
    (Transcript.toolUses ((m.record.pointer ["message", "content"]).getD .null)), ?_⟩
  unfold claudeAssistant
  rw [if_pos h.logs]
  rfl

end Assistant

/-! ### What the state knows of the messages -/

/-- What the totals and the responses of a session are made of agree with the messages. -/
structure Read (messages : List Logged) (s : Transcript) : Prop where
  seen : ∀ key, key ∈ s.claudeSeenUsage ↔ ∃ m ∈ messages, m.requestId = some key
  nodup : (s.claudeMessageModels.map Prod.fst).Nodup
  totals : ∀ f : UsageField, f.ofTotal (totalUsage s.claudeMessageModels) =
    ((firsts Logged.requestId messages).map fun m => jsonI64 m.usage f.name).sum
  modelUsage : s.modelUsage = []
  responses : s.llmResponses.map (fun r => (responseKey r, countsOf r)) =
    messages.map fun m => (m.messageKey, m.taken)

theorem UsageField.ofTotal_totalUsage (f : UsageField) (models : List (String × TokenUsage)) :
    f.ofTotal (totalUsage models) = (models.map fun row => f.ofTotal row.2).sum := by
  cases f <;> rfl

theorem read_nil : Read [] {} where
  seen _ := by simp
  nodup := nodup_nil
  totals f := by cases f <;> rfl
  modelUsage := rfl
  responses := rfl

section Counting

variable {messages : List Logged} {s : Transcript} {m : Logged}

theorem exists_concat (messages : List Logged) (m : Logged) (p : Logged → Prop) :
    (∃ m' ∈ messages ++ [m], p m') ↔ (∃ m' ∈ messages, p m') ∨ p m := by
  simp [or_and_right, exists_or]

theorem Read.seen_usage (h : Read messages s) (hm : m.Identified) :
    claudeUsageKey m.record ∈ s.claudeSeenUsage ↔ ∃ m' ∈ messages, m'.requestId = m.requestId := by
  rw [h.seen, hm.requestId_eq]

theorem sameResponses_countUsage (s : Transcript) (obj : Value) :
    (s.countUsage obj).modelUsage = s.modelUsage ∧
      (s.countUsage obj).llmResponses = s.llmResponses := by
  unfold countUsage
  split
  · split
    · exact ⟨rfl, rfl⟩
    · exact ⟨rfl, rfl⟩
  · exact ⟨rfl, rfl⟩

theorem Read.seen_countUsage (h : Read messages s) (hm : m.Identified) (key : String) :
    key ∈ (s.countUsage m.record).claudeSeenUsage ↔
      ∃ m' ∈ messages ++ [m], m'.requestId = some key := by
  rw [exists_concat, hm.requestId_eq, Option.some_inj, ← h.seen]
  unfold countUsage
  rw [hm.pointer_usage]
  dsimp only
  by_cases hold : claudeUsageKey m.record ∈ s.claudeSeenUsage
  · rw [if_pos hold]
    constructor
    · exact .inl
    · rintro (hkey | rfl)
      · exact hkey
      · exact hold
  · rw [if_neg hold, mem_append, mem_singleton, eq_comm (a := key)]

/-- The first record of a request adds its usage to the total of its model, and no other does. -/
theorem Read.totals_countUsage (h : Read messages s) (hm : m.Identified) (f : UsageField) :
    f.ofTotal (totalUsage (s.countUsage m.record).claudeMessageModels) =
      ((firsts Logged.requestId (messages ++ [m])).map fun m => jsonI64 m.usage f.name).sum := by
  unfold countUsage
  rw [hm.pointer_usage]
  dsimp only
  by_cases hold : claudeUsageKey m.record ∈ s.claudeSeenUsage
  · rw [if_pos hold, firsts_concat_of_seen ((h.seen_usage hm).mp hold), h.totals]
  · rw [if_neg hold, firsts_concat_of_new (mt (h.seen_usage hm).mpr hold), map_append,
      sum_append, ← h.totals, UsageField.ofTotal_totalUsage, UsageField.ofTotal_totalUsage]
    unfold addUsage
    rw [sum_upsert h.nodup]
    · rw [map_singleton]
      cases f <;> simp [UsageField.ofTotal, UsageField.name, TokenUsage.add]
    · rintro ⟨name, usage⟩ -
      cases f <;> simp [UsageField.ofTotal, TokenUsage.add]

theorem Read.nodup_countUsage (h : Read messages s) (obj : Value) :
    ((s.countUsage obj).claudeMessageModels.map Prod.fst).Nodup := by
  unfold countUsage
  split
  · split
    · exact h.nodup
    · exact nodup_upsert (fun _ => rfl) h.nodup
  · exact h.nodup

variable [Crates]

theorem Read.assistant (h : Read messages s) (hm : m.Identified)
    (hprompt : m.promptIndex = s.currentPromptIndex) :
    Read (messages ++ [m]) (s.claudeAssistant m.record) := by
  have hmodel : Read messages (withModel s m.record) := ⟨h.1, h.2, h.3, h.4, h.5⟩
  obtain ⟨s', hsame, heq⟩ := claudeAssistant_eq (s := s) hm
  obtain ⟨hmodelUsage, hresponses⟩ := sameResponses_countUsage (withModel s m.record) m.record
  rw [heq]
  constructor
  case seen =>
    intro key
    rw [← hmodel.seen_countUsage hm, ← hsame.seen]
    rfl
  case nodup =>
    have hnodup := hmodel.nodup_countUsage m.record
    rwa [← hsame.models] at hnodup
  case totals =>
    intro f
    rw [← hmodel.totals_countUsage hm, ← hsame.models]
    rfl
  case modelUsage => exact hsame.modelUsage.trans (hmodelUsage.trans h.modelUsage)
  case responses =>
    have hkey : responseKey ((withModel s m.record).claudeResponse m.record) = m.messageKey :=
      Prod.ext hprompt.symm hm.sourceId_eq
    have hvalue : countsOf ((withModel s m.record).claudeResponse m.record) = m.taken :=
      countsOf_claudeResponse _ m
    have hold : s'.llmResponses = s.llmResponses := hsame.responses.trans hresponses
    rw [logResponse, hold, map_append, map_append, h.responses,
      map_singleton, map_singleton, hkey, hvalue]

/-- What one record adds. -/
theorem Read.record (h : Read messages s) {obj : Value} (hresult : typeOf obj ≠ some "result")
    (hm : typeOf obj = some "assistant" → (Logged.mk s.currentPromptIndex obj).Identified) :
    Read (messages ++ if typeOf obj = some "assistant" then [⟨s.currentPromptIndex, obj⟩] else [])
      (s.claudeRecord obj) := by
  by_cases hassistant : typeOf obj = some "assistant"
  · have hread := h.assistant (hm hassistant) rfl
    unfold claudeRecord
    rw [hassistant]
    exact hread
  · rw [if_neg hassistant, append_nil]
    have hsame := sameUsage_claudeRecord s obj hresult hassistant
    constructor
    case seen => rw [hsame.seen]; exact h.seen
    case nodup => rw [hsame.models]; exact h.nodup
    case totals => rw [hsame.models]; exact h.totals
    case modelUsage => rw [hsame.modelUsage]; exact h.modelUsage
    case responses => rw [hsame.responses]; exact h.responses

/-- What a run of records adds. -/
theorem Read.records {records : List Value} (h : Read messages s)
    (hresult : ∀ obj ∈ records, typeOf obj ≠ some "result")
    (hm : ∀ m ∈ loggedFrom s records, m.Identified) {s' : Transcript}
    (hread : Transcript.readRecords "claude" s records = .returned s') :
    Read (messages ++ loggedFrom s records) s' := by
  induction records generalizing messages s with
  | nil =>
    cases hread
    rwa [loggedFrom, append_nil]
  | cons obj records ih =>
    rw [loggedFrom] at hm ⊢
    have hrecord := h.record (hresult obj mem_cons_self) fun hassistant =>
      hm _ (mem_append_left _ (by rw [if_pos hassistant]; exact mem_singleton_self _))
    rw [← append_assoc]
    exact ih hrecord (fun obj hobj => hresult obj (mem_cons_of_mem _ hobj))
      (fun m hmem => hm m (mem_append_right _ hmem)) hread

end Counting

/-! ### Responses with a source -/

section Dedup

variable {d : Dedup} {r : LlmResponse}

theorem responseKey_merge (previous response : LlmResponse) :
    responseKey (mergeLlmResponse previous response) = responseKey previous := rfl

theorem countsOf_merge (previous response : LlmResponse) :
    countsOf (mergeLlmResponse previous response) = countsOf previous ⊔ countsOf response := by
  funext c
  cases c <;> rfl

theorem modify_eq_update {rows : List LlmResponse} (nodup : (rows.map responseKey).Nodup) {i : ℕ}
    {row : LlmResponse} (h : rows[i]? = some row) (f : LlmResponse → LlmResponse) :
    rows.modify i f = update responseKey rows (responseKey row) f := by
  refine ext_getElem? fun j => ?_
  rw [getElem?_modify, update, getElem?_map]
  by_cases hij : i = j
  · subst hij
    simp [h]
  · cases hj : rows[j]? with
    | none => simp
    | some other =>
      have hne : responseKey other ≠ responseKey row := by
        intro heq
        have hlength : i < (rows.map responseKey).length := by
          simpa using (List.getElem?_eq_some_iff.mp h).1
        refine hij ((getElem?_inj hlength nodup).mp ?_)
        rw [getElem?_map, getElem?_map, h, hj, Option.map_some, Option.map_some, heq]
      simp [hij, hne]

/-- The index of the responses by their source is up to date. -/
def Dedup.Indexed (d : Dedup) : Prop :=
  d.bySourceId = (d.unique.map responseKey).zipIdx

theorem sourceKey_eq (h : r.sourceId ≠ "") : sourceKey r = some (responseKey r) := if_neg h

theorem lastDuplicate_eq_none (unique : List LlmResponse) (h : r.sourceId ≠ "") :
    lastDuplicate unique r = none := by
  unfold lastDuplicate
  split
  · refine if_neg fun hdup => h ?_
    simp only [isDuplicate, Bool.and_eq_true, decide_eq_true_eq] at hdup
    exact hdup.1.1.1.1
  · rfl

/-- A response with a source is merged with the one of its prompt and source. -/
theorem Dedup.add_unique (hindexed : d.Indexed) (nodup : (d.unique.map responseKey).Nodup)
    (h : r.sourceId ≠ "") :
    (d.add r).unique = upsert responseKey d.unique r (mergeLlmResponse · r) ∧
      (d.add r).Indexed := by
  unfold Dedup.add
  rw [sourceKey_eq h, lastDuplicate_eq_none d.unique h, Option.or_none, Option.bind_some]
  cases hfind : find Prod.fst d.bySourceId (responseKey r) with
  | some found =>
    obtain ⟨key, index⟩ := found
    obtain ⟨hmem, rfl⟩ := mem_of_find hfind
    rw [hindexed, mem_zipIdx_iff_getElem?, getElem?_map] at hmem
    obtain ⟨row, hrow, hkey⟩ := Option.map_eq_some_iff.mp hmem
    have hfound : (find responseKey d.unique (responseKey row)).isSome = true :=
      (find_isSome responseKey _ _).mpr ⟨row, mem_of_getElem? hrow, rfl⟩
    dsimp only at hkey ⊢
    rw [Option.map_some, upsert, ← hkey, if_pos hfound]
    constructor
    · exact modify_eq_update nodup hrow _
    · rw [Dedup.Indexed]
      dsimp only
      rw [hindexed, modify_eq_update nodup hrow, update, map_map]
      congr 1
      refine map_congr_left fun other _ => ?_
      rw [Function.comp_apply, apply_ite responseKey]
      exact (ite_self _).symm
  | none =>
    have hnew : ¬ (find responseKey d.unique (responseKey r)).isSome = true := by
      rw [find_isSome]
      rintro ⟨row, hrow, hkey⟩
      obtain ⟨i, hi⟩ := mem_iff_getElem?.mp hrow
      have hmem : (responseKey r, i) ∈ d.bySourceId := by
        rw [hindexed, mem_zipIdx_iff_getElem?, getElem?_map, hi, Option.map_some, hkey]
      have hsome := (find_isSome Prod.fst d.bySourceId (responseKey r)).mpr ⟨_, hmem, rfl⟩
      rw [hfind] at hsome
      cases hsome
    rw [Option.map_none, upsert, if_neg hnew]
    rw [Dedup.Indexed, hindexed, map_append, zipIdx_append]
    simp

theorem deduplicate_eq_gather {responses : List LlmResponse}
    (h : ∀ r ∈ responses, r.sourceId ≠ "") :
    deduplicateLlmResponses responses = gather responseKey mergeLlmResponse responses := by
  have hrun : (responses.foldl Dedup.add {}).unique =
      gather responseKey mergeLlmResponse responses ∧ (responses.foldl Dedup.add {}).Indexed := by
    induction responses using List.reverseRecOn with
    | nil => exact ⟨rfl, rfl⟩
    | append_singleton responses r ih =>
      obtain ⟨hunique, hindexed⟩ := ih fun r hr => h r (mem_append_left _ hr)
      have hnodup : ((responses.foldl Dedup.add {}).unique.map responseKey).Nodup := by
        rw [hunique, map_key_gather responseKey_merge]
        exact nodup_firsts _ _
      rw [foldl_append, gather, foldl_append, ← gather, ← hunique]
      exact Dedup.add_unique hindexed hnodup
        (h r (mem_append_right _ (mem_singleton_self r)))
  exact hrun.1

end Dedup

/-! ### The responses of a transcript -/

theorem jsonI64_le_jsonU64 {value : Value} {key : String}
    (h : ∀ field ∈ value.get key, field.asU64.isSome = true) :
    0 ≤ (jsonI64 value key).toInt ∧ (jsonI64 value key).toInt ≤ jsonU64 value key := by
  unfold jsonI64 jsonU64
  cases hfield : value.get key with
  | none => simp
  | some field =>
    have hnatural := h field hfield
    rw [Option.bind_some]
    unfold Value.asI64 Value.asU64 at *
    split
    · -- A count that is too large for the totals is zero to them.
      split
      · next n hlt =>
        rw [Option.getD_some, Int64.toInt_ofInt_of_le (by omega) (by exact_mod_cast hlt)]
        simp
      · simp
    · cases hnatural
    · simp

variable {m : Logged}

theorem Logged.Identified.nonneg (h : m.Identified) {c : Component} {f : UsageField}
    (hf : f ∈ c.fields) : 0 ≤ (jsonI64 m.usage f.name).toInt :=
  (jsonI64_le_jsonU64 (h.natural c f hf)).1

theorem Logged.Identified.counted_le (h : m.Identified) (c : Component) :
    m.counted c ≤ (m.carried c : ℤ) := by
  refine (sum_le_sum fun f hf => (jsonI64_le_jsonU64 (h.natural c f hf)).2).trans_eq ?_
  cases c <;> simp [Logged.carried, Component.carried, Component.fields]

theorem Logged.taken_eq (h : m.carried .cache < 2 ^ 64) : m.taken = m.carried := by
  funext c
  cases c with
  | cache => exact Nat.mod_eq_of_lt h
  | _ => rfl

section Responses

variable [Crates] {records : List Value} {s : Transcript}

theorem SplitTranscript.grows (h : SplitTranscript records) :
    (logged records).Pairwise fun m m' => m.messageKey = m'.messageKey → m.carried ≤ m'.carried :=
  h.together.imp fun hlater hkey => (hlater (congrArg Prod.snd hkey)).2.2

theorem SplitTranscript.sameRequest (h : SplitTranscript records) :
    (logged records).Pairwise fun m m' =>
      m.messageKey = m'.messageKey → m.requestId = m'.requestId :=
  h.together.imp fun hlater hkey => (hlater (congrArg Prod.snd hkey)).1

section

variable (hread : Read (logged records) s)
include hread

/-- The responses of the session, before and after they are merged. -/
theorem Read.sourceId (h : SplitTranscript records) :
    ∀ r ∈ s.llmResponses, r.sourceId ≠ "" := by
  intro r hr
  have hentry := mem_map_of_mem (f := fun r => (responseKey r, countsOf r)) hr
  rw [hread.responses] at hentry
  obtain ⟨m, hm, heq⟩ := mem_map.mp hentry
  have hid : m.messageId = r.sourceId := congrArg (·.1.2) heq
  rw [← hid]
  exact (h.identified m hm).messageId

theorem Read.map_key (h : SplitTranscript records) :
    (deduplicateLlmResponses s.llmResponses).map responseKey =
      (firsts Logged.messageKey (logged records)).map Logged.messageKey := by
  have hkeys : s.llmResponses.map responseKey = (logged records).map Logged.messageKey := by
    have hfst := congrArg (List.map Prod.fst) hread.responses
    rwa [map_map, map_map] at hfst
  have hids {α : Type} (key : α → ℕ × String) l :
      (firsts key l).map key = firsts id (l.map key) := (firsts_map id key l).symm
  rw [deduplicate_eq_gather (hread.sourceId h), map_key_gather responseKey_merge, hids, hids, hkeys]

/-- No response has more than a `u64` holds. -/
theorem Read.cacheTokens_lt (h : SplitTranscript records) :
    ∀ r ∈ deduplicateLlmResponses s.llmResponses, countsOf r .cache < 2 ^ 64 := by
  rw [deduplicate_eq_gather (hread.sourceId h)]
  refine forall_mem_gather (fun r r' hr hr' => by rw [countsOf_merge]; exact max_lt hr hr')
    fun r hr => ?_
  have hentry := mem_map_of_mem (f := fun r => (responseKey r, countsOf r)) hr
  rw [hread.responses] at hentry
  obtain ⟨m, -, heq⟩ := mem_map.mp hentry
  have hcounts : m.taken = countsOf r := congrArg Prod.snd heq
  rw [← hcounts]
  exact Nat.mod_lt _ (by decide)

variable (hfits : ∀ m ∈ logged records, m.carried .cache < 2 ^ 64)
include hfits

/-- A response carries the usage of the last record of its message. -/
theorem Read.countsOf_eq (h : SplitTranscript records)
    {r : LlmResponse} (hr : r ∈ deduplicateLlmResponses s.llmResponses)
    (hm : latest Logged.messageKey (logged records) (responseKey r) = some m) :
    countsOf r = m.carried := by
  rw [deduplicate_eq_gather (hread.sourceId h)] at hr
  have hentries : s.llmResponses.map (fun r => (responseKey r, countsOf r)) =
      (logged records).map fun m => (m.messageKey, m.carried) :=
    hread.responses.trans (map_congr_left fun m hm => by rw [Logged.taken_eq (hfits m hm)])
  have hgrows : (s.llmResponses.map fun r => (responseKey r, countsOf r)).Pairwise
      fun e e' => e.1 = e'.1 → e.2 ≤ e'.2 := by
    rw [hentries, pairwise_map]
    exact h.grows
  have hlatest := latest_map Prod.fst (fun r => (responseKey r, countsOf r)) s.llmResponses
    (responseKey r)
  rw [hentries, latest_map] at hlatest
  have hcomp : latest (Prod.fst ∘ fun m : Logged => (m.messageKey, m.carried)) (logged records)
      (responseKey r) = some m := hm
  rw [hcomp] at hlatest
  obtain ⟨last, hlast, heq⟩ := Option.map_eq_some_iff.mp hlatest.symm
  have hvalue : countsOf last = m.carried := congrArg Prod.snd heq
  rw [← hvalue]
  exact value_gather responseKey_merge countsOf_merge (pairwise_map.mp hgrows) hr hlast

end

/-- The usage of the last record of a message. -/
def lastCarried (messages : List Logged) (c : Component) (key : ℕ × String) : ℕ :=
  ((latest Logged.messageKey messages key).map (Logged.carried · c)).getD 0

omit [Crates] in
theorem lastCarried_eq {messages : List Logged} {key : ℕ × String}
    (h : latest Logged.messageKey messages key = some m) (c : Component) :
    lastCarried messages c key = m.carried c := by
  rw [lastCarried, h, Option.map_some, Option.getD_some]

theorem Read.sum_countsOf (hread : Read (logged records) s) (h : SplitTranscript records)
    (hfits : ∀ m ∈ logged records, m.carried .cache < 2 ^ 64) (c : Component) :
    ((deduplicateLlmResponses s.llmResponses).map fun r => (c.ofResponse r : ℤ)).sum =
      ((firsts Logged.messageKey (logged records)).map fun m =>
        (lastCarried (logged records) c m.messageKey : ℤ)).sum := by
  have hkeys := congrArg (List.map fun key => (lastCarried (logged records) c key : ℤ))
    (hread.map_key h)
  rw [map_map, map_map] at hkeys
  have hvalues : (deduplicateLlmResponses s.llmResponses).map (fun r => (c.ofResponse r : ℤ)) =
      (deduplicateLlmResponses s.llmResponses).map
        ((fun key => (lastCarried (logged records) c key : ℤ)) ∘ responseKey) := by
    refine map_congr_left fun r hr => ?_
    have hkey : responseKey r ∈ (firsts Logged.messageKey (logged records)).map Logged.messageKey :=
      hread.map_key h ▸ mem_map_of_mem hr
    obtain ⟨m, hm, heq⟩ := mem_map.mp hkey
    obtain ⟨last, hlast⟩ : ∃ last, latest Logged.messageKey (logged records) (responseKey r) =
        some last := exists_latest ⟨m, mem_of_mem_firsts hm, heq⟩
    rw [Function.comp_apply, lastCarried_eq hlast, ← hread.countsOf_eq hfits h hr hlast]
    rfl
  rw [hvalues, hkeys]
  rfl

theorem countedFirst_le (h : SplitTranscript records)
    (hm : m ∈ firsts Logged.messageKey (logged records)) (c : Component) :
    countedFirst (logged records) c m ≤ (lastCarried (logged records) c m.messageKey : ℤ) := by
  have hmem := mem_of_mem_firsts hm
  obtain ⟨last, hlast⟩ :
      ∃ last, latest Logged.messageKey (logged records) m.messageKey = some last :=
    exists_latest ⟨m, hmem, rfl⟩
  rw [lastCarried_eq hlast]
  have hgrows : m.carried c ≤ last.carried c := le_latest h.grows hmem hlast c
  have hcounted := (h.identified m hmem).counted_le c
  unfold countedFirst
  split
  · omega
  · omega

/-- A total is the sum of what the first records of the requests count for if it fits, and less
otherwise. -/
theorem Read.ofTotal_le (hread : Read (logged records) s) (h : SplitTranscript records)
    (c : Component) :
    c.ofTotal (totalUsage s.claudeMessageModels) ≤
        ((firsts Logged.requestId (logged records)).map (Logged.counted · c)).sum ∧
      (c.ofTotal (totalUsage s.claudeMessageModels) =
          ((firsts Logged.requestId (logged records)).map (Logged.counted · c)).sum ↔
        ∀ f ∈ c.fields, ((firsts Logged.requestId (logged records)).map fun m =>
          (jsonI64 m.usage f.name).toInt).sum < 2 ^ 63) := by
  set firsts := firsts Logged.requestId (logged records) with hfirsts
  have hswap : (firsts.map (Logged.counted · c)).sum = (c.fields.map fun f =>
      (firsts.map fun m => (jsonI64 m.usage f.name).toInt).sum).sum := by
    cases c <;> simp [Logged.counted, Component.counted, Component.fields, sum_map_add]
  have hwrap (f : UsageField) : (f.ofTotal (totalUsage s.claudeMessageModels)).toInt =
      WrappingSum.wrap (firsts.map fun m => (jsonI64 m.usage f.name).toInt).sum := by
    rw [hread.totals, toInt_sum, map_map]
    rfl
  have hnonneg : ∀ f ∈ c.fields, 0 ≤ (firsts.map fun m => (jsonI64 m.usage f.name).toInt).sum := by
    refine fun f hf => sum_nonneg fun n hn => ?_
    obtain ⟨m, hm, rfl⟩ := mem_map.mp hn
    exact (h.identified m (mem_of_mem_firsts hm)).nonneg hf
  rw [hswap, Component.ofTotal]
  simp only [hwrap]
  have hle : ∀ f ∈ c.fields, _ := fun f hf => wrap_le (hnonneg f hf)
  exact ⟨sum_le_sum hle, (sum_eq_sum_iff hle).trans
    (forall₂_congr fun f hf => wrap_eq_iff (hnonneg f hf))⟩

/-- The totals of a session are the sums over its responses, and each message is one response with
the usage of its last record, exactly if no sum overflows and of every message the first record
already counts for what the last one reports. -/
theorem claude_accounts_iff {content : List Char} (h : SplitTranscript (recordsOf content))
    {session : AgentSession} (hparse : parseJsonl "claude" content = .returned (some session)) :
    Accounts (logged (recordsOf content)) session ↔
      Fits (logged (recordsOf content)) ∧ FirstIsLast (logged (recordsOf content)) := by
  obtain ⟨s, hrun, hfinish⟩ := exists_of_parseJsonl hparse
  have hread : Read (logged (recordsOf content)) s := by
    have hrecords := read_nil.records h.noResult h.identified hrun
    rwa [nil_append] at hrecords
  obtain ⟨husage, hresponses, -⟩ := Transcript.finish_eq_some hfinish
  rw [hread.modelUsage] at husage
  have htotals (hfits : ∀ m ∈ logged (recordsOf content), m.carried .cache < 2 ^ 64)
      (c : Component) : c.ofTotal session.usage =
        (session.llmResponses.map fun r => (c.ofResponse r : ℤ)).sum ↔
      (∀ f ∈ c.fields, ((firsts Logged.requestId (logged (recordsOf content))).map fun m =>
          (jsonI64 m.usage f.name).toInt).sum < 2 ^ 63) ∧
        ∀ m ∈ firsts Logged.messageKey (logged (recordsOf content)),
          countedFirst (logged (recordsOf content)) c m =
            (lastCarried (logged (recordsOf content)) c m.messageKey : ℤ) := by
    obtain ⟨hle, hexact⟩ := hread.ofTotal_le h c
    have hfirsts := sum_firsts Logged.requestId (Logged.counted · c) h.sameRequest
    have hlast := sum_le_sum (l := firsts Logged.messageKey (logged (recordsOf content)))
      fun m hm => countedFirst_le h hm c
    rw [husage, hresponses, hread.sum_countsOf h hfits, ← hexact,
      ← sum_eq_sum_iff fun m hm => countedFirst_le h hm c]
    constructor
    · intro heq
      exact ⟨hle.antisymm (heq ▸ hfirsts ▸ hlast), hlast.antisymm (heq ▸ hfirsts ▸ hle)⟩
    · rintro ⟨hcounted, heq⟩
      exact hcounted.trans (hfirsts.trans heq)
  have hlatest : ∀ m ∈ logged (recordsOf content),
      ∃ last, latest Logged.messageKey (logged (recordsOf content)) m.messageKey = some last :=
    fun m hm => exists_latest ⟨m, hm, rfl⟩
  constructor
  · intro haccounts
    have hfits : ∀ m ∈ logged (recordsOf content), m.carried .cache < 2 ^ 64 := by
      intro m hm
      obtain ⟨last, hlast⟩ := hlatest m hm
      obtain ⟨r, hr, hkey⟩ := mem_map.mp ((haccounts.all m.messageKey).mpr (mem_map_of_mem hm))
      rw [← hkey] at hlast
      have hgrows : m.carried .cache ≤ last.carried .cache :=
        le_latest h.grows hm (hkey ▸ hlast) .cache
      rw [← haccounts.last r hr last hlast .cache] at hgrows
      exact hgrows.trans_lt (hread.cacheTokens_lt h r (hresponses ▸ hr))
    refine ⟨⟨fun c => ((htotals hfits c).mp (haccounts.totals c)).1, hfits⟩,
      fun m hm last hlast c => ?_⟩
    rw [((htotals hfits c).mp (haccounts.totals c)).2 m hm, lastCarried_eq hlast]
  · rintro ⟨⟨hfit, hfits⟩, hfirst⟩
    constructor
    case totals =>
      refine fun c => (htotals hfits c).mpr ⟨hfit c, fun m hm => ?_⟩
      obtain ⟨last, hlast⟩ := hlatest m (mem_of_mem_firsts hm)
      rw [hfirst m hm last hlast c, lastCarried_eq hlast]
    case once =>
      rw [hresponses, hread.map_key h]
      exact nodup_firsts _ _
    case all =>
      intro key
      rw [hresponses, hread.map_key h, mem_map, mem_map]
      exact exists_firsts Logged.messageKey _ key
    case last =>
      intro r hr m hm c
      rw [hresponses] at hr
      exact congrFun (hread.countsOf_eq hfits h hr hm) c

end Responses

/-! ### A message in two records -/

def assistantRecord (text : String) (outputTokens : ℕ) : Value :=
  .object [("type", .string "assistant"), ("requestId", .string "req-1"),
    ("message", .object [("id", .string "msg-1"), ("model", .string "opus"),
      ("content", .array [.object [("type", .string "text"), ("text", .string text)]]),
      ("usage", .object [("input_tokens", .ofNat 9), ("output_tokens", .ofNat outputTokens)])])]

/-- The digests of the texts with their usage, as far as they are used. -/
def assistantDigests : List (String × String) :=
  [("I look\x7b\"input_tokens\":9,\"output_tokens\":1\x7d", "876074edc6a8"),
    ("I look\x7b\"input_tokens\":9,\"output_tokens\":40\x7d", "55fa09f5f5c8"),
    ("Done.\x7b\"input_tokens\":9,\"output_tokens\":40\x7d", "e986702032d7")]

section Growing

def growingMessage : List Value := [assistantRecord "I look" 1, assistantRecord "Done." 40]

local instance growingCrates : Crates := .ofRecords growingMessage assistantDigests []

/-- The totals count one token, and the response says forty. -/
theorem growingMessage_differs : SplitTranscript (recordsOf (contentOf growingMessage)) ∧
    ∃ session, parseJsonl "claude" (contentOf growingMessage) = .returned (some session) ∧
      ¬ Accounts (logged (recordsOf (contentOf growingMessage))) session := by
  have hrecords : recordsOf (contentOf growingMessage) = growingMessage :=
    recordsOf_contentOf (by decide) assistantDigests []
  have hsplit : SplitTranscript (recordsOf (contentOf growingMessage)) := by
    rw [hrecords]
    exact ⟨by decide, by decide, by decide⟩
  have hparse : (parseJsonl "claude" (contentOf growingMessage)).value.isSome = true := by
    rw [parseJsonl, hrecords]
    decide
  have hdiffers : ∀ session ∈ (parseJsonl "claude" (contentOf growingMessage)).value,
      Component.output.ofTotal session.usage ≠
        (session.llmResponses.map fun r => (Component.output.ofResponse r : ℤ)).sum := by
    rw [parseJsonl, hrecords]
    decide
  obtain ⟨session, hsession⟩ := Option.isSome_iff_exists.mp hparse
  exact ⟨hsplit, session, Outcome.eq_of_value hsession,
    fun haccounts => hdiffers session hsession (haccounts.totals .output)⟩

end Growing

section Steady

def steadyMessage : List Value := [assistantRecord "I look" 40, assistantRecord "Done." 40]

local instance steadyCrates : Crates := .ofRecords steadyMessage assistantDigests []

/-- A message whose records report one usage. -/
theorem claude_accounts_iff_steady :
    ∃ session, parseJsonl "claude" (contentOf steadyMessage) = .returned (some session) ∧
      Accounts (logged (recordsOf (contentOf steadyMessage))) session := by
  have hrecords : recordsOf (contentOf steadyMessage) = steadyMessage :=
    recordsOf_contentOf (by decide) assistantDigests []
  have hsplit : SplitTranscript (recordsOf (contentOf steadyMessage)) := by
    rw [hrecords]
    exact ⟨by decide, by decide, by decide⟩
  have hparse : (parseJsonl "claude" (contentOf steadyMessage)).value.isSome = true := by
    rw [parseJsonl, hrecords]
    decide
  have hfirst : FirstIsLast (logged (recordsOf (contentOf steadyMessage))) := by
    rw [hrecords, FirstIsLast]
    decide
  have hfits : Fits (logged (recordsOf (contentOf steadyMessage))) := by
    rw [hrecords]
    exact ⟨by decide, by decide⟩
  obtain ⟨session, hsession⟩ := Option.isSome_iff_exists.mp hparse
  have hreturned := Outcome.eq_of_value hsession
  exact ⟨session, hreturned, (claude_accounts_iff hsplit hreturned).mpr ⟨hfits, hfirst⟩⟩

end Steady

end AgentSight.Session
