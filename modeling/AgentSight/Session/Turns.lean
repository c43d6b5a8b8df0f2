import AgentSight.Session.Transcript

/-!
# The records that a session owns

Most records leave what the usage and the responses are made of alone (`SameUsage`). A Codex session
that was forked owns no record before its first own task. `turns` lists the records that it owns,
each with the state that it is read in, and what every one of them keeps holds at the end
(`turnsOf_induction`).
-/

namespace AgentSight.Session

open Json (Value)
open Transcript

/-! ### What most records leave alone -/

/-- The states agree on what the usage and the responses of a session are made of. -/
structure SameUsage (s s' : Transcript) : Prop where
  seen : s'.claudeSeenUsage = s.claudeSeenUsage
  models : s'.claudeMessageModels = s.claudeMessageModels
  modelUsage : s'.modelUsage = s.modelUsage
  responses : s'.llmResponses = s.llmResponses

theorem SameUsage.refl (s : Transcript) : SameUsage s s := ⟨rfl, rfl, rfl, rfl⟩

variable {s s' : Transcript}

theorem SameUsage.trans {s'' : Transcript} (h : SameUsage s s') (h' : SameUsage s' s'') :
    SameUsage s s'' where
  seen := h'.seen.trans h.seen
  models := h'.models.trans h.models
  modelUsage := h'.modelUsage.trans h.modelUsage
  responses := h'.responses.trans h.responses

section Frame

variable [Crates] (s : Transcript) (obj : Value)

theorem sameUsage_upsertPrompt (tsMs : Option ℤ) (text : String) :
    SameUsage s (s.upsertPrompt tsMs text) := by
  unfold upsertPrompt
  dsimp only
  split
  · exact ⟨rfl, rfl, rfl, rfl⟩
  · exact ⟨rfl, rfl, rfl, rfl⟩

theorem sameUsage_startPrompt (text : String) : SameUsage s (s.startPrompt obj text) := by
  refine .trans ?_ (sameUsage_upsertPrompt _ _ _)
  exact ⟨rfl, rfl, rfl, rfl⟩

theorem sameUsage_showPrompt (text : String) : SameUsage s (s.showPrompt obj text) := by
  refine .trans ?_ (sameUsage_startPrompt _ _ _)
  exact ⟨rfl, rfl, rfl, rfl⟩

theorem sameUsage_showField (key : String) : SameUsage s (s.showField obj key) := by
  unfold showField
  split
  · exact sameUsage_showPrompt _ _ _
  · exact .refl s

theorem sameUsage_wholePrompt : SameUsage s (s.wholePrompt obj) := by
  unfold wholePrompt
  split
  · exact sameUsage_showPrompt _ _ _
  · exact .refl s

theorem sameUsage_otherRecord : SameUsage s (s.otherRecord obj) := by
  unfold otherRecord
  split
  · exact sameUsage_wholePrompt s obj
  · exact .refl s

theorem sameUsage_claudeUser : SameUsage s (s.claudeUser obj) := by
  unfold claudeUser
  dsimp only
  split
  · exact .refl s
  · split
    · split
      · refine .trans ?_ (sameUsage_startPrompt _ _ _)
        exact ⟨rfl, rfl, rfl, rfl⟩
      · exact .refl s
    · exact .refl s

omit [Crates] in
theorem sameUsage_observePlan (name : String) (input : Value) :
    SameUsage s (s.observePlan name input) := by
  unfold observePlan
  split
  · exact ⟨rfl, rfl, rfl, rfl⟩
  · exact .refl s

omit [Crates] in
theorem sameUsage_call (name : String) (input : Value) :
    SameUsage s ((s.addTool name).observePlan name input) := by
  refine .trans ?_ (sameUsage_observePlan _ _ _)
  exact ⟨rfl, rfl, rfl, rfl⟩

omit [Crates] in
/-- A custom tool call is a call of the tool and with the input that its script says. -/
theorem exists_of_customToolCall (h : s.customToolCall obj = .returned s') :
    ∃ name args, codexCustomToolInput
        (((Transcript.payloadOf obj).strField "name").getD "tool").toList
        (((Transcript.payloadOf obj).strField "input").getD "").toList = .returned (name, args) ∧
      s' = (s.addTool (String.ofList name)).observePlan (String.ofList name) args := by
  obtain ⟨⟨name, args⟩, hscript, hcall⟩ := Outcome.bind_eq_returned.mp h
  exact ⟨name, args, hscript, (Outcome.returned.inj hcall).symm⟩

omit [Crates] in
theorem sameUsage_toolUses (items : List Value) :
    SameUsage s (items.foldl Transcript.claudeToolUse s) := by
  induction items generalizing s with
  | nil => exact .refl s
  | cons item items ih => exact .trans (sameUsage_call _ _ _) (ih _)

theorem agentMessage_of_ne (h : typeOf (Transcript.payloadOf obj) ≠ some "agent_message") :
    s.agentMessage obj = s := by
  unfold agentMessage
  split
  · exact if_neg h
  · rfl

theorem userMessage_of_ne (h : typeOf (Transcript.payloadOf obj) ≠ some "user_message") :
    s.userMessage obj = s := by
  unfold userMessage
  split
  · exact if_neg h
  · rfl

omit [Crates] in
theorem reportUsage_of_not {payload : Value} (h : ¬ Transcript.isUsageReport payload = true) :
    (s.countTotal payload).reportUsage payload = s := by
  unfold reportUsage
  rw [if_neg h]
  unfold countTotal
  split
  · next htype _ => simp [isUsageReport, htype] at h
  · rfl

/-- Only assistant and result records add to the usage or the responses. -/
theorem sameUsage_claudeRecord (hresult : typeOf obj ≠ some "result")
    (hassistant : typeOf obj ≠ some "assistant") : SameUsage s (s.claudeRecord obj) := by
  unfold claudeRecord
  split
  · next htype => exact absurd htype hresult
  · next htype => exact absurd htype hassistant
  · exact sameUsage_claudeUser s obj
  · split
    · exact sameUsage_showField _ _ _
    · exact .refl s
  · split
    · exact sameUsage_showField _ _ _
    · exact .refl s
  · exact sameUsage_otherRecord s obj

end Frame

/-! ### The records of a Codex session -/

section Turns

variable [Crates]

/-- The session owns the record that is read in the state. -/
def Transcript.owns (s : Transcript) (obj : Value) : Bool :=
  typeOf obj ≠ some "session_meta" && s.codexOwnsEvents

/-- The records that the session owns among those that are read from the state on. -/
def turns (s : Transcript) : List Value → List (Transcript × Value)
  | [] => []
  | obj :: records =>
    (if s.owns obj then [(s, obj)] else []) ++
      match s.codexRecord obj with
      | .returned s => turns s records
      | _ => []

def turnsOf (records : List Value) : List (Transcript × Value) := turns {} records

def owned (records : List Value) : List Value := (turnsOf records).map Prod.snd

/-- What is kept by every record that the session owns, and does not depend on what says which ones
it owns, holds of the whole run. -/
theorem turns_induction {P : List (Transcript × Value) → Transcript → Prop}
    (own : ∀ done s obj s', P done s → s.ownRecord obj = .returned s' → P (done ++ [(s, obj)]) s')
    (other : ∀ done s metaSeen owns startedAt, P done s → P done { s with
        codexMetaSeen := metaSeen, codexOwnsEvents := owns, codexSessionStartedAt := startedAt })
    {done : List (Transcript × Value)} {records : List Value} (h : P done s)
    (hread : Transcript.readRecords "codex" s records = .returned s') :
    P (done ++ turns s records) s' := by
  induction records generalizing done s with
  | nil =>
    cases hread
    rwa [turns, List.append_nil]
  | cons obj records ih =>
    have hrecord : s.readRecord "codex" obj = s.codexRecord obj := rfl
    rw [readRecords, hrecord] at hread
    cases hnext : s.codexRecord obj with
    | panicked =>
      rw [hnext] at hread
      cases hread
    | unfinished =>
      rw [hnext] at hread
      cases hread
    | returned next =>
      rw [hnext] at hread
      rw [turns, hnext, ← List.append_assoc]
      refine ih ?_ hread
      unfold codexRecord at hnext
      by_cases hmeta : typeOf obj = some "session_meta"
      · rw [if_pos hmeta] at hnext
        cases hnext
        have hnot : s.owns obj = false := by simp [owns, hmeta]
        rw [hnot, if_neg Bool.false_ne_true, List.append_nil]
        unfold sessionMeta
        split
        · exact h
        · exact other _ _ _ _ _ h
      · rw [if_neg hmeta] at hnext
        split at hnext
        · next howns =>
          have hown : s.owns obj = true := by simp [owns, hmeta, howns]
          rw [hown]
          exact own _ _ _ _ h hnext
        · next howns =>
          cases hnext
          have hnot : s.owns obj = false := by simp [owns, howns]
          rw [hnot, if_neg Bool.false_ne_true, List.append_nil]
          exact other _ _ _ _ _ h

/-- The same of the records of a whole transcript. -/
theorem turnsOf_induction {P : List (Transcript × Value) → Transcript → Prop} (start : P [] {})
    (own : ∀ done s obj s', P done s → s.ownRecord obj = .returned s' → P (done ++ [(s, obj)]) s')
    (other : ∀ done s metaSeen owns startedAt, P done s → P done { s with
        codexMetaSeen := metaSeen, codexOwnsEvents := owns, codexSessionStartedAt := startedAt })
    {records : List Value}
    (hread : Transcript.readRecords "codex" {} records = .returned s) : P (turnsOf records) s := by
  have hrun := turns_induction own other start hread
  rwa [List.nil_append] at hrun

end Turns

end AgentSight.Session
