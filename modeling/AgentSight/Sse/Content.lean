import AgentSight.Sse.Accumulator

/-!
# What accumulation depends on

An event either carries content or leaves the accumulated content as it is, so the content a
list of events accumulates is that of its carrying events, in order. Text and JSON only grow,
which makes completion permanent.
-/

namespace AgentSight.Sse

open Json (Value)
open List

/-- An event that may add to the content, or that makes a stream worth an event: a delta of any
provider, a finish, or usage. -/
def SSEEvent.carriesContent (event : SSEEvent) : Bool :=
  event.isType "content_block_delta" || sseEventHasUsage event || sseEventHasOpenaiDelta event ||
    sseEventHasTerminalFinish event || sseEventHasOpenaiResponseDelta event ||
    sseEventHasOpenaiResponseTerminal event

/-- A completion marker: what `is_sse_complete` looks for among the events. -/
def SSEEvent.marksEnd (event : SSEEvent) : Bool :=
  sseEventCompletesStream event || event.isType "message_stop" || event.isType "error"

/-! ### Events that carry nothing -/

variable {content : Content}

theorem accumulateChoice_of_no_delta {choice : Value}
    (h : (choiceDelta choice).any hasDelta = false) :
    accumulateChoice content choice = content := by
  simp only [accumulateChoice]
  cases hdelta : choiceDelta choice with
  | none => rfl
  | some delta =>
    simp only [hdelta, Option.any_some, hasDelta, Bool.or_eq_false_iff] at h
    obtain ⟨⟨⟨hcontent, htools⟩, hcall⟩, hreasoning⟩ := h
    have htext : (delta.strField "content").getD "" = "" := by
      rw [Value.strField]
      cases hstr : (delta.get "content").bind (·.asStr) with
      | none => rfl
      | some text => simpa [hstr] using hcontent
    have hcalls : ((delta.get "tool_calls").bind (·.asArray)).getD [] = [] := by
      cases harray : (delta.get "tool_calls").bind (·.asArray) with
      | none => rfl
      | some calls => simpa [harray] using htools
    have hthought : openaiReasoningDelta delta = none := by simpa using hreasoning
    have hnone : delta.get "function_call" = none := by simpa using hcall
    simp [htext, hcalls, hthought, hnone]

theorem accumulateOpenaiContent_of_no_delta {data : Value}
    (h : hasOpenaiDelta data = false) : accumulateOpenaiContent content data = content := by
  rw [hasOpenaiDelta, any_eq_false] at h
  rw [accumulateOpenaiContent]
  generalize choices data = choices at h
  induction choices with
  | nil => rfl
  | cons choice choices ih =>
    rw [forall_mem_cons] at h
    rw [foldl_cons, accumulateChoice_of_no_delta (by simpa using h.1), ih h.2]

theorem accumulateOpenaiResponsesContent_of_no_delta {data : Value}
    (h : hasOpenaiResponseDelta data = false) :
    accumulateOpenaiResponsesContent content data = content := by
  simp only [hasOpenaiResponseDelta, accumulateOpenaiResponsesContent] at h ⊢
  split <;> simp_all

variable {event : SSEEvent}

theorem accumulate_of_not_carries
    (h : event.carriesContent = false) : content.accumulate event = content := by
  simp only [SSEEvent.carriesContent, Bool.or_eq_false_iff] at h
  obtain ⟨⟨⟨⟨⟨hblock, -⟩, hdelta⟩, -⟩, hresponse⟩, -⟩ := h
  cases hdata : event.parsedData with
  | none => simp [Content.accumulate, hdata]
  | some data =>
    simp only [sseEventHasOpenaiDelta, sseEventHasOpenaiResponseDelta, hdata, Option.any_some]
      at hdelta hresponse
    simp only [Content.accumulate, hdata, hblock]
    simp [accumulateOpenaiContent_of_no_delta hdelta,
      accumulateOpenaiResponsesContent_of_no_delta hresponse]

/-- The content of a list of events is that of the events that carry any. -/
theorem foldl_accumulate_filter (content : Content) (events : List SSEEvent) :
    (events.filter SSEEvent.carriesContent).foldl Content.accumulate content =
      events.foldl Content.accumulate content := by
  induction events generalizing content with
  | nil => rfl
  | cons event events ih =>
    cases h : event.carriesContent with
    | true => simp [h, ih]
    | false => simp [h, ih, accumulate_of_not_carries h]

/-! ### Accumulation over a list -/

section

variable (accumulator : SSEAccumulator)

section

variable (events : List SSEEvent)

@[simp] theorem accumulateContent_toContent :
    (accumulateContent accumulator events).toContent =
      events.foldl Content.accumulate accumulator.toContent := by
  induction events generalizing accumulator with
  | nil => rfl
  | cons event events ih => exact ih (accumulator.accumulate event)

@[simp] theorem accumulateContent_events :
    (accumulateContent accumulator events).events = accumulator.events ++ events := by
  induction events generalizing accumulator with
  | nil => simp [accumulateContent]
  | cons event events ih =>
    change (accumulateContent (accumulator.accumulate event) events).events = _
    rw [ih]
    simp [SSEAccumulator.accumulate]

@[simp] theorem accumulateContent_lastUpdate :
    (accumulateContent accumulator events).lastUpdate = accumulator.lastUpdate := by
  induction events generalizing accumulator with
  | nil => rfl
  | cons event events ih => exact ih (accumulator.accumulate event)

@[simp] theorem accumulateContent_isComplete :
    (accumulateContent accumulator events).isComplete = accumulator.isComplete := by
  induction events generalizing accumulator with
  | nil => rfl
  | cons event events ih => exact ih (accumulator.accumulate event)

end

end

/-! ### Text and JSON grow -/

/-- Nothing said is taken back. -/
structure Content.Extends (content content' : Content) : Prop where
  text : ∃ added, content'.accumulatedText = content.accumulatedText ++ added
  json : ∃ added, content'.accumulatedJson = content.accumulatedJson ++ added

namespace Content.Extends

variable {content content' content'' : Content}

theorem of_eq (htext : content'.accumulatedText = content.accumulatedText)
    (hjson : content'.accumulatedJson = content.accumulatedJson) : content.Extends content' :=
  ⟨⟨"", by simp [htext]⟩, ⟨"", by simp [hjson]⟩⟩

theorem refl (content : Content) : content.Extends content := of_eq rfl rfl

theorem trans (h : content.Extends content') (h' : content'.Extends content'') :
    content.Extends content'' := by
  obtain ⟨⟨text, htext⟩, json, hjson⟩ := h
  obtain ⟨⟨text', htext'⟩, json', hjson'⟩ := h'
  exact ⟨⟨text ++ text', by rw [htext', htext, String.append_assoc]⟩,
    json ++ json', by rw [hjson', hjson, String.append_assoc]⟩

/-- A loop whose body extends the content extends it. -/
theorem foldl {ι : Type} {f : Content → ι → Content}
    (hf : ∀ (content : Content) (i : ι), content.Extends (f content i)) (items : List ι)
    (content : Content) : content.Extends (items.foldl f content) := by
  induction items generalizing content with
  | nil => exact refl content
  | cons i items ih => exact (hf content i).trans (ih _)

theorem utf8ByteSize_text (h : content.Extends content') :
    content.accumulatedText.utf8ByteSize ≤ content'.accumulatedText.utf8ByteSize := by
  obtain ⟨added, hadded⟩ := h.text
  rw [hadded, String.utf8ByteSize_append]
  omega

theorem utf8ByteSize_json (h : content.Extends content') :
    content.accumulatedJson.utf8ByteSize ≤ content'.accumulatedJson.utf8ByteSize := by
  obtain ⟨added, hadded⟩ := h.json
  rw [hadded, String.utf8ByteSize_append]
  omega

end Content.Extends

section

variable (content : Content)

theorem extends_accumulateBlockDelta (data : Value) :
    content.Extends (accumulateBlockDelta content data) := by
  rw [accumulateBlockDelta]
  split
  · exact .refl content
  · exact ⟨⟨_, rfl⟩, _, rfl⟩

theorem extends_accumulateChoice (choice : Value) :
    content.Extends (accumulateChoice content choice) := by
  rw [accumulateChoice]
  split
  · exact .refl content
  · next delta _ =>
    have hcalls said (hsaid : content.Extends said) : content.Extends
        ((((delta.get "tool_calls").bind (·.asArray)).getD []).zipIdx.foldl
          (fun content call => accumulateOpenaiToolCall content call.1 call.2) said) := by
      refine hsaid.trans (.foldl ?_ _ said)
      exact fun content item => .of_eq rfl rfl
    split
    · exact hcalls _ ⟨⟨_, rfl⟩, "", by simp⟩
    · exact (hcalls _ ⟨⟨_, rfl⟩, "", by simp⟩).trans (.of_eq rfl rfl)

theorem extends_accumulateOpenaiResponseItem (data : Value) :
    content.Extends (accumulateOpenaiResponseItem content data) := by
  rw [accumulateOpenaiResponseItem]
  split
  · exact .refl content
  · split <;> exact .of_eq rfl rfl

theorem extends_accumulateOpenaiResponsesContent (data : Value) :
    content.Extends (accumulateOpenaiResponsesContent content data) := by
  rw [accumulateOpenaiResponsesContent]
  split
  case h_1 => exact ⟨⟨_, rfl⟩, "", by simp⟩
  case h_6 | h_7 => exact extends_accumulateOpenaiResponseItem content data
  all_goals exact .of_eq rfl rfl

theorem extends_accumulate (event : SSEEvent) :
    content.Extends (content.accumulate event) := by
  rw [Content.accumulate]
  split
  · exact .refl content
  · next data _ =>
    refine Content.Extends.trans ?_ (extends_accumulateOpenaiResponsesContent _ data)
    refine Content.Extends.trans ?_ (.foldl extends_accumulateChoice (choices data) _)
    split
    · exact extends_accumulateBlockDelta content data
    · exact .refl content

theorem extends_foldl_accumulate (events : List SSEEvent) :
    content.Extends (events.foldl Content.accumulate content) :=
  .foldl extends_accumulate events content

end

/-! ### Completion and meaning -/

variable {accumulator : SSEAccumulator}

theorem isSseComplete_of_marksEnd
    (hmem : event ∈ accumulator.events) (hmarks : event.marksEnd) : isSseComplete accumulator := by
  have hany : (accumulator.events.any fun event => sseEventCompletesStream event ||
      event.isType "message_stop" || event.isType "error") = true :=
    any_eq_true.mpr ⟨event, hmem, hmarks⟩
  simp [isSseComplete, hany]

theorem not_isSseComplete (hevents : ∀ event ∈ accumulator.events, event.marksEnd = false)
    (htext : accumulator.accumulatedText.utf8ByteSize ≤ 50000)
    (hjson : accumulator.accumulatedJson.utf8ByteSize ≤ 50000) :
    isSseComplete accumulator = false := by
  have hany : (accumulator.events.any fun event => sseEventCompletesStream event ||
      event.isType "message_stop" || event.isType "error") = false :=
    any_eq_false.mpr fun event hevent => by
      simpa [SSEEvent.marksEnd] using hevents event hevent
  simp [isSseComplete, hany, htext, hjson]

theorem hasMeaningfulContent_of_carriesContent
    (hmem : event ∈ accumulator.events) (hcarries : event.carriesContent) :
    hasMeaningfulContent accumulator := by
  simp only [SSEEvent.carriesContent, Bool.or_eq_true] at hcarries
  simp only [hasMeaningfulContent, Bool.or_eq_true, any_eq_true]
  rcases hcarries with ((((hblock | husage) | hdelta) | hfinish) | hresponse) | hterminal
  · exact .inl (.inr ⟨event, hmem, hblock⟩)
  · exact .inl (.inl (.inr ⟨event, hmem, by simp [husage]⟩))
  · exact .inl (.inl (.inr ⟨event, hmem, by simp [hdelta]⟩))
  · exact .inl (.inl (.inr ⟨event, hmem, by simp [hfinish]⟩))
  · exact .inl (.inl (.inr ⟨event, hmem, by simp [hresponse]⟩))
  · exact .inl (.inl (.inr ⟨event, hmem, by simp [hterminal]⟩))

/-- An event that can make no stream worth an event: it carries nothing and starts nothing. -/
def SSEEvent.isQuiet (event : SSEEvent) : Bool :=
  !event.carriesContent && !event.isType "message_start"

theorem SSEEvent.isQuiet_iff : event.isQuiet ↔
    event.carriesContent = false ∧ event.isType "message_start" = false := by
  simp [SSEEvent.isQuiet]

theorem not_hasMeaningfulContent (hcontent : accumulator.toContent = {})
    (hevents : ∀ event ∈ accumulator.events, event.isQuiet) :
    hasMeaningfulContent accumulator = false := by
  have hstart : accumulator.events.any (·.isType "message_start") = false :=
    any_eq_false.mpr fun event hevent => by
      simp [(SSEEvent.isQuiet_iff.mp (hevents event hevent)).2]
  have hblock : accumulator.events.any (·.isType "content_block_delta") = false :=
    any_eq_false.mpr fun event hevent => by
      have hquiet := (SSEEvent.isQuiet_iff.mp (hevents event hevent)).1
      simp only [SSEEvent.carriesContent, Bool.or_eq_false_iff] at hquiet
      simp [hquiet]
  have hsaid : (accumulator.events.any fun event => sseEventHasUsage event ||
      sseEventHasOpenaiDelta event || sseEventHasTerminalFinish event ||
      sseEventHasOpenaiResponseDelta event || sseEventHasOpenaiResponseTerminal event) = false :=
    any_eq_false.mpr fun event hevent => by
      have hquiet := (SSEEvent.isQuiet_iff.mp (hevents event hevent)).1
      simp only [SSEEvent.carriesContent, Bool.or_eq_false_iff] at hquiet
      simp [hquiet]
  simp [hasMeaningfulContent, hcontent, hstart, hblock, hsaid]

/-! ### Message ids -/

theorem extractMessageId_singleton (event : SSEEvent) :
    extractMessageId [event] = (startMessageId event).or (eventMessageId event) := by
  simp [extractMessageId]

theorem exists_of_extractMessageId {events : List SSEEvent} {messageId : String}
    (h : extractMessageId events = some messageId) :
    ∃ event ∈ events, extractMessageId [event] = some messageId := by
  rw [extractMessageId, Option.or_eq_some_iff] at h
  rcases h with hstart | ⟨hnone, hevent⟩
  · obtain ⟨event, hmem, hid⟩ := exists_of_findSome?_eq_some hstart
    exact ⟨event, hmem, by simp [extractMessageId_singleton, hid]⟩
  · obtain ⟨event, hmem, hid⟩ := exists_of_findSome?_eq_some hevent
    exact ⟨event, hmem, by
      simp [extractMessageId_singleton, findSome?_eq_none_iff.mp hnone event hmem, hid]⟩

theorem extractMessageId_eq_none {events : List SSEEvent} (h : extractMessageId events = none)
    (hmem : event ∈ events) : extractMessageId [event] = none := by
  rw [extractMessageId, Option.or_eq_none_iff, findSome?_eq_none_iff,
    findSome?_eq_none_iff] at h
  simp [extractMessageId_singleton, h.1 event hmem, h.2 event hmem]

end AgentSight.Sse
