import AgentSight.Bridge.Given
import AgentSight.Bridge.Noninterference

/-!
# Disclosure to each client

A hello says how much of each row its client is allowed to receive, and an incident-scoped
mode expires. The server reads neither: rows are projected once, under the mode the emitter
was configured with, and fanned out to every connection, copied into snapshots and replayed.
So a client receives no more than its mode allows only where the emitter's mode lets no more
through (`Respects`), at the time when the row is published and not when it is queued again.
-/

namespace AgentSight.Bridge

open Transition Option
open Projection (mutation rawFields mem_contentFields_mutation fewDigests)
open View (Row)

/-! ### Modes and times -/

/-- Whether the mode still holds at a time. -/
def DisclosureMode.isUnexpired (nowMs : ℕ) : DisclosureMode → Bool
  | .incidentScoped _ _ expiresAtMs => decide (nowMs ≤ expiresAtMs)
  | _ => true

/-- A content field may be populated under this mode at this time. -/
def DisclosureMode.Permits (mode : DisclosureMode) (name : String) (nowMs : ℕ) : Prop :=
  mode.allowsContentField name = true ∧ mode.isUnexpired nowMs = true

/-- Whatever content a row has, what the server's mode lets through of it is permitted by the
client's at this time. -/
def DisclosureMode.StaysWithin (mode client : DisclosureMode) (nowMs : ℕ) : Prop :=
  ∀ row, ∀ name ∈ rawFields row, mode.allowsContentField name = true → client.Permits name nowMs

/-- The content fields that are populated in the envelope. -/
def ViewMutationEnvelope.content (envelope : ViewMutationEnvelope) : List String :=
  envelope.mutation.contentFields.getD []

/-- The mutation comes from no row. -/
def ViewMutation.isNotice : ViewMutation → Bool
  | .captureCapabilityChanged .. | .captureGapObserved .. | .rowEvicted .. => true
  | _ => false

section Projected

variable [External] {mode client : DisclosureMode} {m : ViewMutation} {nowMs : ℕ}

/-- What an emitter of this mode, or a snapshot of its view, makes. -/
def Emitted (mode : DisclosureMode) (m : ViewMutation) : Prop :=
  (∃ row revision, m = mutation row revision mode) ∨ m.isNotice = true

/-- The condition says no more than that no row can be projected into one that is not permitted. -/
theorem staysWithin_iff : mode.StaysWithin client nowMs ↔
    ∀ row revision, ∀ name ∈ (mutation row revision mode).contentFields.getD [],
      client.Permits name nowMs := by
  constructor
  · intro h row revision name hname
    obtain ⟨hraw, hallows⟩ := mem_contentFields_mutation.mp hname
    exact h row name hraw hallows
  · intro h row name hraw hallows
    exact h row 0 name (mem_contentFields_mutation.mpr ⟨hraw, hallows⟩)

theorem permits_of_emitted (h : Emitted mode m) (hwithin : mode.StaysWithin client nowMs)
    {name : String} (hname : name ∈ m.contentFields.getD []) : client.Permits name nowMs := by
  obtain ⟨row, revision, rfl⟩ | hnotice := h
  · exact staysWithin_iff.mp hwithin row revision name hname
  · -- a notice has no content
    cases m <;> first | cases hname | cases hnotice

end Projected

/-! ### Runs -/

/-- A server with the history of its hellos and of what it has queued. -/
structure Disclosures where
  server : Server
  /-- The mode named by the hello that was accepted on the connection. -/
  hello : ℕ → Option DisclosureMode
  /-- When the mutation with the sequence was published, if it was. -/
  published : ℕ → Option ℕ
  /-- The mutations queued to the connection, each with the time it was published at. -/
  given : ℕ → List (ViewMutationEnvelope × ℕ)

namespace Disclosures

def init (config : BridgeServerConfig) : Disclosures where
  server := .init config
  hello := fun _ => none
  published := fun _ => none
  given := fun _ => []

/-- The hello that the action brings to an acceptance. -/
def accepted (s : Server) : Action → Option (ℕ × BridgeHello)
  | .receive id (.hello hello) =>
    if (s.peers id).negotiated = false ∧ bridgeProtocolVersion ∈ hello.supportedVersions then
      some (id, hello)
    else none
  | _ => none

/-- The mutation that the action publishes. -/
def publishes (s : Server) : Action → Option ViewMutationEnvelope
  | .broadcast _ => s.emission
  | _ => none

/-- When an envelope was published that is queued now: a row of a snapshot is published as it is
queued, a replayed envelope was before. -/
def publishedAt (t : Disclosures) (nowMs : ℕ) (envelope : ViewMutationEnvelope) : ℕ :=
  (t.published envelope.sequence).getD nowMs

/-- One step at a time of the wall clock. -/
def step (bodyBytes : BridgeMessage → ℕ) (t : Disclosures) (a : Action × ℕ) : Option Disclosures :=
  (t.server.step bodyBytes a.1).map fun server =>
    { server
      hello := match accepted t.server a.1 with
        | some (id, hello) => Function.update t.hello id (some hello.disclosure)
        | none => t.hello
      published := match publishes t.server a.1 with
        | some envelope => Function.update t.published envelope.sequence (some a.2)
        | none => t.published
      given := fun i => t.given i ++
        ((t.server.gives i a.1).map fun envelope => (envelope, t.publishedAt a.2 envelope)).toList }

/-- No content field that the server's mode or the client's did not permit when it was published. -/
def Disclosed (mode : DisclosureMode) (t : Disclosures) : Prop :=
  ∀ i envelope nowMs, (envelope, nowMs) ∈ t.given i → ∀ name ∈ envelope.content,
    mode.Permits name nowMs ∧ ∀ client ∈ t.hello i, client.Permits name nowMs

/-- The mutations a connection has been given, gap notices apart, are in its history. -/
def Complete (t : Disclosures) : Prop :=
  ∀ i, (t.server.link i).stream.Sublist ((t.given i).map (·.1))

section Respects

variable [External]

/-- Whatever is queued to a connection was published while the server's mode had not expired and
let no more through than the mode of the connection's hello. -/
def Respects (mode : DisclosureMode) (t : Disclosures) (a : Action × ℕ) : Prop :=
  (∀ i envelope, t.server.gives i a.1 = some envelope →
    mode.StaysWithin mode (t.publishedAt a.2 envelope) ∧
      ∀ client ∈ t.hello i, mode.StaysWithin client (t.publishedAt a.2 envelope)) ∧
  ∀ i hello, accepted t.server a.1 = some (i, hello) → ∀ x ∈ t.given i,
    mode.StaysWithin hello.disclosure x.2

/-- What holds of every state of a run whose rows are projected under the mode. -/
structure Projected (mode : DisclosureMode) (t : Disclosures) : Prop where
  sequenced : t.server.Sequenced
  traced : t.server.Traced
  carries : t.server.Carries (Emitted mode)
  given : ∀ i, ∀ x ∈ t.given i, Emitted mode x.1.mutation
  within : ∀ i, ∀ x ∈ t.given i, mode.StaysWithin mode x.2 ∧
    ∀ client ∈ t.hello i, mode.StaysWithin client x.2
  complete : t.Complete

variable {bodyBytes : BridgeMessage → ℕ} {mode : DisclosureMode} {t t' : Disclosures}
  {a : Action × ℕ}

omit [External] in
theorem step_eq (h : t.step bodyBytes a = some t') :
    t.server.step bodyBytes a.1 = some t'.server ∧ t'.hello = (match accepted t.server a.1 with
        | some (id, hello) => Function.update t.hello id (some hello.disclosure)
        | none => t.hello) ∧
      ∀ i, t'.given i = t.given i ++ ((t.server.gives i a.1).map fun envelope =>
        (envelope, t.publishedAt a.2 envelope)).toList := by
  obtain ⟨server, hserver, rfl⟩ := map_eq_some_iff.mp h
  exact ⟨hserver, rfl, fun _ => rfl⟩

omit [External] in
theorem mem_given_of_step (h : t.step bodyBytes a = some t') {i : ℕ}
    {x : ViewMutationEnvelope × ℕ} : x ∈ t'.given i ↔
      x ∈ t.given i ∨ t.server.gives i a.1 = some x.1 ∧ x.2 = t.publishedAt a.2 x.1 := by
  rw [(step_eq h).2.2 i]
  exact Server.mem_given_append

theorem projected_init (config : BridgeServerConfig) : (init config).Projected mode where
  sequenced := Server.sequenced_init config
  traced := Server.traced_init config
  carries := Server.carries_init config
  given _ _ h := (List.not_mem_nil h).elim
  within _ _ h := (List.not_mem_nil h).elim
  complete _ := List.nil_sublist _

omit [External] in
/-- The modes after a step. -/
theorem hello_of_step (h : t.step bodyBytes a = some t') (i : ℕ) :
    (∃ hello, accepted t.server a.1 = some (i, hello) ∧ t'.hello i = some hello.disclosure) ∨
      (∀ hello, accepted t.server a.1 ≠ some (i, hello)) ∧ t'.hello i = t.hello i := by
  obtain ⟨-, hhello, -⟩ := step_eq h
  rw [hhello]
  rcases hacc : accepted t.server a.1 with _ | ⟨id, hello⟩
  · exact .inr ⟨fun hello heq => (some_ne_none _ heq.symm).elim, rfl⟩
  · by_cases hi : i = id
    · subst hi
      exact .inl ⟨hello, rfl, Function.update_self ..⟩
    · refine .inr ⟨fun hello' heq => ?_, Function.update_of_ne hi ..⟩
      exact hi (Prod.mk.inj (some.inj heq)).1.symm

omit [External] in
/-- The action that brings a hello queues no mutation. -/
theorem hello_of_gives (h : t.step bodyBytes a = some t') {i : ℕ}
    {envelope : ViewMutationEnvelope} (hgives : t.server.gives i a.1 = some envelope) :
    t'.hello i = t.hello i := by
  obtain ⟨hello, hacc, -⟩ | ⟨-, hsame⟩ := hello_of_step h i
  · obtain ⟨-, ⟨nowNs, emitted, hact, -⟩ | ⟨input, ops, hact, -⟩⟩ := Server.gives_eq_some hgives
    all_goals
      rw [hact] at hacc
      cases hacc
  · exact hsame

/-- What has been queued stays within the modes. -/
theorem Projected.within_step (h : t.Projected mode) (hok : t.Respects mode a)
    (hstep : t.step bodyBytes a = some t') (i : ℕ) : ∀ x ∈ t'.given i,
      mode.StaysWithin mode x.2 ∧ ∀ client ∈ t'.hello i, mode.StaysWithin client x.2 := by
  intro x hx
  obtain hx | ⟨hgives, htime⟩ := (mem_given_of_step hstep).mp hx
  · obtain ⟨hserver, hclient⟩ := h.within i x hx
    refine ⟨hserver, fun client hmode => ?_⟩
    obtain ⟨hello, hacc, hnew⟩ | ⟨-, hsame⟩ := hello_of_step hstep i
    · rw [hnew] at hmode
      obtain rfl := some.inj hmode
      exact hok.2 i hello hacc x hx
    · exact hclient client (hsame ▸ hmode)
  · rw [hello_of_gives hstep hgives, htime]
    exact hok.1 i x.1 hgives

/-- **One step.** -/
theorem Projected.step (h : t.Projected mode) (hin : t.server.Admits (Emitted mode) a.1)
    (hok : t.Respects mode a) (hstep : t.step bodyBytes a = some t') : t'.Projected mode := by
  obtain ⟨hserver, -, hgiven⟩ := step_eq hstep
  have he := Server.step_effect hserver
  refine ⟨h.sequenced.effect he, h.traced.effect h.sequenced he,
    h.carries.step h.sequenced hin hserver, fun i x hx => ?_, h.within_step hok hstep,
    fun i => ?_⟩
  · obtain hx | ⟨hgives, -⟩ := (mem_given_of_step hstep).mp hx
    · exact h.given i x hx
    · exact h.carries.gives hgives
  · rw [hgiven]
    exact Server.stream_of_step h.traced hserver (h.complete i)

theorem Projected.disclosed (h : t.Projected mode) : t.Disclosed mode := by
  intro i envelope nowMs hx name hname
  obtain ⟨hserver, hclient⟩ := h.within i _ hx
  have hemitted := h.given i _ hx
  exact ⟨permits_of_emitted hemitted hserver hname, fun client hmode =>
    permits_of_emitted hemitted (hclient client hmode) hname⟩

/-- **Disclosure to each client.** In every run of a server whose rows are projected under
`mode`, and which publishes only while the mode has not expired and, to each client, lets no
more through than its hello allows, no connection has been queued a content field that its own
mode or the server's did not permit when it was published. Under other modes there is a row that
would be. -/
theorem disclosure_enforced {config : BridgeServerConfig} (h : Reaches (Disclosures.step bodyBytes)
      (fun t a => t.server.Admits (Emitted mode) a.1 ∧ t.Respects mode a) (init config) t) :
    t.Disclosed mode ∧ t.Complete ∧
      ∀ (client : DisclosureMode) (nowMs : ℕ), ¬mode.StaysWithin client nowMs →
        ∃ row, ∀ revision, ∃ name ∈ (mutation row revision mode).contentFields.getD [],
          ¬client.Permits name nowMs := by
  have hinv : t.Projected mode := by
    refine h.invariant (I := Projected mode) (projected_init config) fun t a t' ht hok hstep => ?_
    exact ht.step hok.1 hok.2 hstep
  refine ⟨hinv.disclosed, hinv.complete, fun client nowMs hnot => ?_⟩
  unfold DisclosureMode.StaysWithin at hnot
  push Not at hnot
  obtain ⟨row, name, hraw, hallows, hpermits⟩ := hnot
  exact ⟨row, fun revision =>
    ⟨name, mem_contentFields_mutation.mpr ⟨hraw, hallows⟩, hpermits⟩⟩

end Respects

/-! ### Two runs -/

open Server (readOp smallConfig)

local instance instFewDigests : External := fewDigests

/-- A tool call with a raw input. -/
def toolRow : Row := .toolCall { (default : View.ToolCallRow) with input := .string "secret" }

/-- A client of mode `client` is connected, and at `nowMs` a tool call is published to it
under `mode`. -/
def publishesTool (mode client : DisclosureMode) (nowMs : ℕ) : List (Action × ℕ) :=
  [(.connect, 0), (.receive 1 (.hello { (default : BridgeHello) with
      supportedVersions := [1], disclosure := client }), 0),
    (readOp [], 0), (readOp [], 0), (readOp [], 0),
    (.allocate .insert (mutation toolRow 0 mode) none .unknown, nowMs), (.broadcast 0, nowMs)]

/-- The view has nothing but the tool call to publish, and nothing to copy. -/
private def PublishesTool (mode : DisclosureMode) (_ : Disclosures) (a : Action × ℕ) : Prop :=
  match a.1 with
  | .allocate _ m _ _ => m = mutation toolRow 0 mode
  | .read _ input => input.mutations = []
  | _ => True

private instance (mode : DisclosureMode) (t : Disclosures) (a : Action × ℕ) :
    Decidable (PublishesTool mode t a) := by
  unfold PublishesTool
  split <;> infer_instance

private theorem admits_of_publishesTool {mode : DisclosureMode} (t : Disclosures)
    (a : Action × ℕ) (h : PublishesTool mode t a) : t.server.Admits (Emitted mode) a.1 := by
  unfold PublishesTool at h
  unfold Server.Admits
  split
  · next operation m wall basis hact =>
    rw [hact] at h
    exact .inl ⟨toolRow, 0, h⟩
  · next id input hact =>
    rw [hact] at h
    intro handle ops _ m hm
    rw [h] at hm
    cases hm
  · trivial

/-- Every client there is may receive everything. -/
private def AllFull (t : Disclosures) (a : Action × ℕ) : Prop :=
  PublishesTool .researchFull t a ∧
    (∀ i ∈ t.server.hub.connections, t.hello i = none ∨ t.hello i = some .researchFull) ∧
    ∀ e ∈ accepted t.server a.1, e.2.disclosure = .researchFull

private instance (t : Disclosures) (a : Action × ℕ) : Decidable (AllFull t a) := by
  unfold AllFull
  infer_instance

private theorem respects_of_allFull (t : Disclosures) (a : Action × ℕ) (h : AllFull t a) :
    t.server.Admits (Emitted .researchFull) a.1 ∧ t.Respects .researchFull a := by
  obtain ⟨hplain, hmodes, haccepted⟩ := h
  have hfull nowMs : DisclosureMode.researchFull.StaysWithin .researchFull nowMs :=
    fun _ _ _ _ => ⟨rfl, rfl⟩
  refine ⟨admits_of_publishesTool t a hplain, fun i envelope hgives => ?_,
    fun i hello hacc x _ => ?_⟩
  · refine ⟨hfull _, fun client hclient => ?_⟩
    have hreg := (Server.gives_eq_some hgives).1.1
    obtain hnone | hsome := hmodes i (of_decide_eq_true hreg)
    · rw [hnone] at hclient
      cases hclient
    · rw [hsome] at hclient
      obtain rfl := some.inj hclient
      exact hfull _
  · rw [haccepted (i, hello) hacc]
    exact hfull _

/-- A client that may receive everything. -/
theorem disclosure_enforced_of_full : ∃ t, Reaches (Disclosures.step fun _ => 0)
        (fun t a => t.server.Admits (Emitted .researchFull) a.1 ∧ t.Respects .researchFull a)
        (init (smallConfig 8 8)) t ∧
      (∃ e ∈ t.given 1, "input" ∈ e.1.content) ∧ t.Disclosed .researchFull := by
  obtain ⟨t, ht, hgiven⟩ := exists_reaches_of_run (Disclosures.step fun _ => 0) AllFull
    (init (smallConfig 8 8)) (Q := fun t => ∃ e ∈ t.given 1, "input" ∈ e.1.content)
    (publishesTool .researchFull .researchFull 0) (by decide)
  have hrespects := ht.mono respects_of_allFull
  exact ⟨t, hrespects, hgiven, (disclosure_enforced hrespects).1⟩

/-- **A metadata-only client is sent content**, when the server's own mode is a wider one. -/
theorem metadata_client_sent_content :
    ¬∀ (ext : External) (mode : DisclosureMode) (config : BridgeServerConfig) (t : Disclosures),
      Reaches (Disclosures.step fun _ => 0)
          (fun t a => t.server.Admits (@Emitted ext mode) a.1) (init config) t →
        t.Disclosed mode := by
  intro hall
  obtain ⟨t, ht, hhello, e, he, hcontent⟩ := exists_reaches_of_run
    (Disclosures.step fun _ => 0) (PublishesTool .researchFull) (init (smallConfig 8 8))
    (Q := fun t => t.hello 1 = some .metadataOnly ∧ ∃ e ∈ t.given 1, "input" ∈ e.1.content)
    (publishesTool .researchFull .metadataOnly 0) (by decide)
  have hdisclosed := hall fewDigests .researchFull _ t (ht.mono admits_of_publishesTool)
  obtain ⟨-, hclient⟩ := hdisclosed 1 e.1 e.2 he "input" hcontent
  obtain ⟨hallows, -⟩ := hclient .metadataOnly hhello
  cases hallows

end Disclosures

end AgentSight.Bridge
