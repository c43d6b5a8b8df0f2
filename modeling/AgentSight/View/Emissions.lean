import AgentSight.View.Projection

/-!
# Programs built from emissions

Every program of the projection is put together from the eight emissions and from
bookkeeping that touches no row. A property of programs that is closed under sequencing, and
that these primitives have, is therefore a property of them all: `Emissions` collects the
closure rules, once for the programs that write no call row and once for all of them.
-/

namespace AgentSight.View

open Effectful

variable {σ : Type} [ViewSink σ] [External]

/-- The closure rules of a property of the programs that write no call row. -/
structure Emissions (P : (α : Type) → ViewM σ α → Prop) : Prop where
  pure {α : Type} (a : α) : P α (pure a)
  bind {α β : Type} {m : ViewM σ α} {f : α → ViewM σ β} : P α m → (∀ a, P β (f a)) → P β (m >>= f)
  tokenUsage (row : TokenUsageRow) : P Unit (emitTokenUsage row)
  auditEvent (row : AuditEventRow) : P Unit (emitAuditEvent row)
  processNode (row : ProcessNodeRow) : P Unit (emitProcessNode row)
  toolCall (row : ToolCallRow) : P Unit (emitToolCall row)
  networkTarget (row : NetworkTargetRow) : P Unit (emitNetworkTarget row)
  resourceSample (row : ResourceSampleRow) : P Unit (emitResourceSample row)
  processes {α : Type} {f : MaterializedView σ → α × MaterializedView σ}
    (h : ∀ v, ∃ activeProcesses, (f v).2 = { v with activeProcesses }) : P α (transact f)

/-- The closure rules of a property of all programs of the projection. -/
structure AllEmissions (P : (α : Type) → ViewM σ α → Prop) : Prop extends Emissions P where
  llmCall (row : LlmCallRow) : P Unit (emitLlmCall row)
  bookkeeping {α : Type} {f : MaterializedView σ → α × MaterializedView σ}
    (h : ∀ v, ∃ pending nextSeq, (f v).2 = { v with pending, nextSeq }) : P α (transact f)

namespace Emissions

variable {P : (α : Type) → ViewM σ α → Prop} (h : Emissions P) (event : CanonicalEvent)

include h

theorem forM {δ : Type} {l : List δ} {f : δ → ViewM σ Unit} (hf : ∀ x, P Unit (f x)) :
    P Unit (l.forM f) := by
  induction l with
  | nil => exact h.pure _
  | cons x l ih => exact h.bind (hf x) fun _ => ih

theorem ingestSseTools (llmCallId : String) (pid : ℕ) (confidence : ℚ) :
    P Unit (ingestSseTools event llmCallId pid confidence) := by
  have hopenai : P Unit (ingestOpenaiTools event llmCallId pid confidence) := by
    unfold ingestOpenaiTools
    dsimp only
    split
    · exact h.pure _
    · exact h.forM fun _ => h.toolCall _
  have hsse sse idx : P Unit (ingestSseTool event llmCallId pid confidence sse idx) := by
    unfold ingestSseTool
    split
    · exact h.pure _
    · split
      · exact h.pure _
      · exact h.toolCall _
  refine h.bind hopenai fun _ => ?_
  split
  · exact h.pure _
  · exact h.forM fun _ => hsse _ _

theorem ingestResponseUsageAndTools (llmCallId : String) (pid : ℕ) (comm : String)
    (provider : Option String) (model : String) (body : Option Json.Value) (confidence : ℚ) :
    P (Option TokenUsageRow) (ingestResponseUsageAndTools event llmCallId pid comm provider
      model body confidence) := by
  have htools := h.ingestSseTools event llmCallId pid confidence
  unfold View.ingestResponseUsageAndTools
  dsimp only
  split
  · exact h.bind htools fun _ => h.pure _
  · exact h.bind (h.tokenUsage _) fun _ => h.bind htools fun _ => h.pure _

theorem ingestAgentSpecificEvent : P Unit (ingestAgentSpecificEvent event) := by
  have hitem (item : Json.Value) idx : P Unit (ingestClaudeTelemetryItem event item idx) := by
    unfold ingestClaudeTelemetryItem
    dsimp only
    split
    · split
      · exact h.pure _
      · exact h.tokenUsage _
    · split
      · exact h.toolCall _
      · exact h.pure _
  have hstats model stats : P Unit (ingestGeminiModelStats event model stats) := by
    unfold ingestGeminiModelStats
    dsimp only
    split
    · exact h.pure _
    · exact h.tokenUsage _
  refine h.bind ?_ fun _ => ?_
  · unfold ingestClaudeTelemetry
    dsimp only
    split
    · exact h.pure _
    · split
      · exact h.forM fun _ => hitem _ _
      · exact h.pure _
  · unfold ingestGeminiStdioStats
    dsimp only
    split
    · exact h.pure _
    · split
      · exact h.pure _
      · exact h.forM fun _ => hstats _ _

theorem ingestProcessAudit (action : String) : P Unit (ingestProcessAudit event action) := by
  have hid : P (Option String) (processNodeId event action) := by
    refine h.processes fun v => ?_
    split
    · exact ⟨_, rfl⟩
    · split
      · exact ⟨_, rfl⟩
      · split <;> exact ⟨_, rfl⟩
  refine h.bind (h.auditEvent _) fun _ => h.bind hid fun id => ?_
  split
  · exact h.processNode _
  · exact h.pure _

theorem emitSampleOf : P Unit (emitSampleOf event) := by
  unfold View.emitSampleOf
  split
  · exact h.resourceSample _
  · exact h.pure _

theorem emitTargetOf : P Unit (emitTargetOf event) := by
  unfold View.emitTargetOf
  split
  · exact h.networkTarget _
  · exact h.pure _

end Emissions

namespace AllEmissions

variable {P : (α : Type) → ViewM σ α → Prop} (h : AllEmissions P) (event : CanonicalEvent)

include h

theorem ingestLlmRequest : P Unit (ingestLlmRequest event) := by
  unfold View.ingestLlmRequest
  split
  · dsimp only
    split
    · exact h.pure _
    · refine h.bind (h.bind (h.auditEvent _) fun _ => h.llmCall _) fun _ => ?_
      exact h.bookkeeping fun v => ⟨_, v.nextSeq, rfl⟩
  · exact h.pure _

theorem ingestLlmResponse : P Unit (ingestLlmResponse event) := by
  unfold View.ingestLlmResponse
  split
  · exact h.pure _
  · refine h.bind (h.bookkeeping fun v => ?_) fun taken => ?_
    · split <;> exact ⟨_, v.nextSeq, rfl⟩
    · split
      · exact h.bind (h.ingestResponseUsageAndTools _ _ _ _ _ _ _ _) fun _ =>
          h.bind (h.auditEvent _) fun _ => h.llmCall _
      · exact h.bind (h.ingestResponseUsageAndTools _ _ _ _ _ _ _ _) fun _ =>
          h.bind (h.auditEvent _) fun _ => h.llmCall _

theorem ingestByKind (pending : Pending) : P Unit (ingestByKind event pending) := by
  unfold View.ingestByKind
  split
  · exact h.ingestLlmRequest event
  · exact h.ingestLlmResponse event
  · exact h.ingestLlmResponse event
  · split
    · exact h.ingestLlmResponse event
    · exact h.pure _
  · exact h.ingestProcessAudit event _
  · exact h.ingestProcessAudit event _
  · split
    · exact h.auditEvent _
    · exact h.pure _
  · exact h.auditEvent _
  · exact h.auditEvent _
  · split
    · exact h.auditEvent _
    · split
      · exact h.auditEvent _
      · exact h.pure _
  · exact h.pure _

/-- Whatever the primitives preserve, a whole event preserves. -/
theorem ingestEvent (event : Event) : P Unit (ingestEvent event) := by
  refine h.bind (h.bookkeeping fun v => ⟨v.pending, _, rfl⟩) fun c => ?_
  refine h.bind (h.bookkeeping fun v => ⟨_, v.nextSeq, rfl⟩) fun _ => ?_
  refine h.bind (h.emitSampleOf c) fun _ => h.bind (h.emitTargetOf c) fun _ => ?_
  refine h.bind (h.ingestAgentSpecificEvent c) fun _ => ?_
  exact h.bind (h.bookkeeping fun v => ⟨v.pending, v.nextSeq, rfl⟩) fun pending =>
    h.ingestByKind c pending

end AllEmissions

end AgentSight.View
