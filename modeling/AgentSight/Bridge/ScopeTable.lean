import AgentSight.Bridge.Resume

/-!
# The scope table in every run

The table is changed by three messages, each under one hold of the hub lock, and by
broadcasts, which raise the `last_sequence` of an entry. `step_scopes` says so once for every
step of the server. A tool scope is registered under any handle that is in the table, and
nothing looks at a scope's children when it is replaced or dropped, so tool entries stay
nested in sandbox entries only in the runs whose steps all respect the nesting.
-/

namespace AgentSight.Bridge

open Transition Option Function

/-! ### Lookups -/

section Lookup

variable {α : Type} [DecidableEq α] {β : Type}

theorem dlookup_kreplace (a a' : α) (b : β) (l : List (Sigma fun _ : α => β)) :
    (l.kreplace a b).dlookup a' =
      if a = a' then (l.dlookup a).map fun _ => b else l.dlookup a' := by
  induction l with
  | nil => simp [List.kreplace]
  | cons entry l ih =>
    have hne (entry : Sigma fun _ : α => β) a l h : (entry :: l).dlookup a = l.dlookup a :=
      List.dlookup_cons_ne l entry h
    obtain ⟨k, v⟩ := entry
    by_cases hk : a = k
    · subst hk
      have hstep : List.kreplace a b (⟨a, v⟩ :: l) = ⟨a, b⟩ :: l :=
        List.lookmap_cons_some _ _ (by simp)
      rw [hstep]
      by_cases ha : a = a'
      · subst ha
        simp
      · rw [if_neg ha, hne ⟨a, b⟩ a' l (Ne.symm ha), hne ⟨a, v⟩ a' l (Ne.symm ha)]
    · have hstep : List.kreplace a b (⟨k, v⟩ :: l) = ⟨k, v⟩ :: List.kreplace a b l :=
        List.lookmap_cons_none _ _ (by simp [hk])
      rw [hstep]
      by_cases hk' : a' = k
      · subst hk'
        simp [hk]
      · rw [hne ⟨k, v⟩ a' _ hk', ih, hne ⟨k, v⟩ a l hk, hne ⟨k, v⟩ a' l hk']

end Lookup

namespace BridgeHub

/-- A broadcast keeps every entry but for the sequence it raises. -/
theorem lookup_noteScopeSequence (scopes : ScopeTable) (envelope : ViewMutationEnvelope)
    (handle : String) :
    (noteScopeSequence scopes envelope).lookup handle =
      if envelope.scopeHandle = some handle then
        (scopes.lookup handle).map fun entry =>
          { entry with lastSequence := max entry.lastSequence envelope.sequence }
      else scopes.lookup handle := by
  rw [noteScopeSequence]
  rcases hhandle : envelope.scopeHandle with _ | tag
  · simp
  · rcases hscope : scopes.lookup tag with _ | scope
    · simp only [hscope, some.injEq]
      split_ifs with heq
      · rw [← heq, hscope]
        rfl
      · rfl
    · simp only [hscope, some.injEq]
      change (scopes.entries.kreplace tag _).dlookup handle = _
      rw [dlookup_kreplace]
      change (if tag = handle then (scopes.lookup tag).map _ else scopes.lookup handle) = _
      split_ifs with heq
      · rw [← heq, hscope]
        rfl
      · rfl

theorem scopes_acceptsAnnotationMsg (h : BridgeHub) (nowNs : ℕ) (msg : AroAnnotation) :
    (h.acceptsAnnotationMsg nowNs msg).1.scopes = h.scopes := by
  rw [acceptsAnnotationMsg]
  split <;> rfl

end BridgeHub

/-! ### What a step does to the table -/

/-- The table after one piece of a reader's work. -/
def ReaderOp.scopesAfter (h : BridgeHub) : ReaderOp → ScopeTable
  | .registerScope registration => (h.registerScope registration).1.scopes
  | .registerToolScope registration => (h.registerToolScope registration).1.scopes
  | .unregisterScope scopeHandle => h.scopes.erase scopeHandle
  | _ => h.scopes

/-- The table after a step. -/
def Server.scopesAfter (s : Server) : Action → ScopeTable
  | .broadcast nowNs =>
    match s.emission with
    | some envelope => BridgeHub.noteScopeSequence s.hub.scopes (s.hub.stamp nowNs envelope)
    | none => s.hub.scopes
  | .read id _ =>
    match (s.peers id).reader with
    | op :: _ => op.scopesAfter s.hub
    | [] => s.hub.scopes
  | _ => s.hub.scopes

theorem BridgeHub.sendTo_scopes (h : BridgeHub) (id : ℕ) (message : BridgeMessage) :
    (h.sendTo id message).scopes = h.scopes := by
  rw [sendTo]
  split_ifs <;> rfl

theorem ReaderOp.exec_scopes {h h' : BridgeHub} {id : ℕ} {viewFree : Bool} {input : ReaderInput}
    {op : ReaderOp} {ops : List ReaderOp}
    (hexec : op.exec h id viewFree input = some (h', ops)) : h'.scopes = op.scopesAfter h := by
  cases op with
  | sendTo message =>
    obtain ⟨rfl, -⟩ : h.sendTo id message = h' ∧ [] = ops := by simpa [exec] using hexec
    exact h.sendTo_scopes id message
  | registerScope r =>
    rcases hr : h.registerScope r with ⟨h₁, _ | _⟩ <;>
      simp only [exec, hr, some.injEq, Prod.mk.injEq] at hexec <;>
      rw [← hexec.1, scopesAfter, hr]
  | registerToolScope r =>
    rcases hr : h.registerToolScope r with ⟨h₁, _ | _⟩ <;>
      simp only [exec, hr, some.injEq, Prod.mk.injEq] at hexec <;>
      rw [← hexec.1, scopesAfter, hr]
  | noteAck n =>
    obtain ⟨rfl, -⟩ : h.noteAck id n = h' ∧ [] = ops := by simpa [exec] using hexec
    rw [BridgeHub.noteAck]
    split_ifs <;> rfl
  | acceptsAnnotationMsg msg =>
    have hq := BridgeHub.scopes_acceptsAnnotationMsg h input.nowNs msg
    rcases hr : h.acceptsAnnotationMsg input.nowNs msg with ⟨h₁, _ | _⟩ <;> rw [hr] at hq <;>
      simp only [exec, hr, some.injEq, Prod.mk.injEq] at hexec <;>
      rw [← hexec.1, hq] <;> rfl
  | applyAnnotationMsg msg | snapshotMutations handle =>
    simp only [exec, ite_none_right_eq_some, some.injEq, Prod.mk.injEq] at hexec
    rw [← hexec.2.1]
    rfl
  | snapshotRows mutations handle through =>
    cases mutations <;> simp only [exec, some.injEq, Prod.mk.injEq] at hexec <;>
      rw [← hexec.1] <;> rfl
  | _ =>
    simp only [exec, some.injEq, Prod.mk.injEq] at hexec
    rw [← hexec.1]
    rfl

namespace Server

variable {bodyBytes : BridgeMessage → ℕ} {s s' : Server} {a : Action}

theorem finishWrite_hub (id : ℕ) (message : BridgeMessage) (writer : Writer) :
    (s.finishWrite bodyBytes id message writer).hub = s.hub := by
  rw [finishWrite]
  split_ifs <;> rfl

/-- **The table after one step.** -/
theorem step_scopes (h : s.step bodyBytes a = some s') : s'.hub.scopes = s.scopesAfter a := by
  cases a with
  | broadcast nowNs =>
    obtain ⟨envelope, hsome, rfl⟩ := map_eq_some_iff.mp h
    rw [scopesAfter, hsome]
    rfl
  | connect =>
    obtain ⟨⟨hub, id⟩, hreg, rfl⟩ := map_eq_some_iff.mp h
    simp only [BridgeHub.registerConnection, ite_none_left_eq_some, some.injEq,
      Prod.mk.injEq] at hreg
    obtain ⟨-, rfl, -⟩ := hreg
    rfl
  | read id input =>
    simp only [step] at h
    rw [scopesAfter]
    split at h
    · cases h
    · next op ops hreader =>
      obtain ⟨⟨hub, ops'⟩, hexec, rfl⟩ := map_eq_some_iff.mp h
      rw [hreader]
      exact ReaderOp.exec_scopes hexec
  | hostSessions id answer =>
    simp only [step, ite_none_right_eq_some, some.injEq] at h
    obtain ⟨-, rfl⟩ := h
    cases answer with
    | none => rfl
    | some answer => exact s.hub.sendTo_scopes id _
  | numberGap id nowNs =>
    simp only [step] at h
    split at h
    · cases h
      rfl
    · cases h
  | write id =>
    obtain ⟨⟨message, writer⟩, -, rfl⟩ := map_eq_some_iff.mp h
    rw [finishWrite_hub]
    rfl
  | heartbeat id nowNs =>
    simp only [step] at h
    split at h
    · cases h
      rw [finishWrite_hub]
      rfl
    · cases h
      rw [finishWrite_hub]
      rfl
    · cases h
  | shutdown reason =>
    cases h
    rfl
  | _ =>
    simp only [step, ite_none_right_eq_some, some.injEq] at h
    obtain ⟨-, rfl⟩ := h
    rfl

end Server

/-! ### Nesting -/

/-- A server with the history of its tool scopes. -/
structure Nesting where
  server : Server
  /-- History: the parent handle the tool scope of a handle was last accepted under. -/
  parent : String → Option String

namespace Nesting

def init (config : BridgeServerConfig) : Nesting where
  server := .init config
  parent := fun _ => none

/-- The first piece of a reader's work, when the step executes it. -/
def piece (s : Nesting) : Action → Option ReaderOp
  | .read id _ => (s.server.peers id).reader.head?
  | _ => none

def parentAfter (s : Nesting) (a : Action) : String → Option String :=
  match s.piece a with
  | some (.registerToolScope registration) =>
    if (s.server.hub.registerToolScope registration).2.isOk then
      Function.update s.parent registration.toolScopeHandle (some registration.parentScopeHandle)
    else s.parent
  | _ => s.parent

def step (bodyBytes : BridgeMessage → ℕ) (s : Nesting) (a : Action) : Option Nesting :=
  (s.server.step bodyBytes a).map fun server => ⟨server, s.parentAfter a⟩

/-- The scope table. -/
def scopes (s : Nesting) : ScopeTable := s.server.hub.scopes

/-- What kind of entry a handle names, if it names one. -/
def kindOf (scopes : ScopeTable) (handle : String) : Option ScopeKind :=
  (scopes.lookup handle).map (·.kind)

/-- Every tool entry was accepted under a handle that names a sandbox entry. -/
def Nested (s : Nesting) : Prop :=
  ∀ handle, kindOf s.scopes handle = some .tool →
    ∃ parent, s.parent handle = some parent ∧ kindOf s.scopes parent = some .sandbox

/-- The step respects the nesting: a tool scope with a handle is registered under no scope but
a sandbox and in the place of no sandbox, and a scope is dropped only after the tool scopes
accepted under it. -/
def Respects (s : Nesting) (a : Action) : Prop :=
  match s.piece a with
  | some (.registerToolScope registration) =>
    BridgeHub.isBlank registration.toolScopeHandle = false →
      kindOf s.scopes registration.parentScopeHandle ≠ none →
        kindOf s.scopes registration.parentScopeHandle = some .sandbox ∧
          kindOf s.scopes registration.toolScopeHandle ≠ some .sandbox
  | some (.unregisterScope scopeHandle) =>
    ∀ handle, kindOf s.scopes handle = some .tool → s.parent handle ≠ some scopeHandle
  | _ => True

/-- The step registers a tool scope. -/
def RegistersTool (s : Nesting) (a : Action) : Prop :=
  ∃ registration, s.piece a = some (.registerToolScope registration)

variable {bodyBytes : BridgeMessage → ℕ} {s s' : Nesting} {a : Action}

theorem step_eq (h : s.step bodyBytes a = some s') :
    s'.scopes = s.server.scopesAfter a ∧ s'.parent = s.parentAfter a := by
  obtain ⟨server, hserver, rfl⟩ := map_eq_some_iff.mp h
  exact ⟨Server.step_scopes hserver, rfl⟩

/-- A tool scope is accepted under any handle in the table. -/
theorem isOk_registerToolScope (h : BridgeHub) (registration : ToolScopeRegistration) :
    (h.registerToolScope registration).2.isOk ↔
      BridgeHub.isBlank registration.toolScopeHandle = false ∧
        kindOf h.scopes registration.parentScopeHandle ≠ none := by
  rw [BridgeHub.registerToolScope, kindOf]
  split_ifs with hblank hparent
  · simp [hblank, Except.isOk, Except.toBool]
  · simp [isNone_iff_eq_none.mp hparent, Except.isOk, Except.toBool]
  · rw [isNone_iff_eq_none] at hparent
    simp [hblank, hparent, Except.isOk, Except.toBool]

@[simp]
theorem kindOf_insert (scopes : ScopeTable) (handle : String) (entry : ScopeEntry) :
    kindOf (scopes.insert handle entry) =
      Function.update (kindOf scopes) handle (some entry.kind) := by
  funext other
  by_cases hother : other = handle
  · subst hother
    rw [update_self, kindOf, AList.lookup_insert]
    rfl
  · rw [update_of_ne hother, kindOf, AList.lookup_insert_ne hother]
    rfl

@[simp]
theorem kindOf_erase (scopes : ScopeTable) (handle : String) :
    kindOf (scopes.erase handle) = Function.update (kindOf scopes) handle none := by
  funext other
  by_cases hother : other = handle
  · subst hother
    rw [update_self, kindOf, AList.lookup_erase]
    rfl
  · rw [update_of_ne hother, kindOf, AList.lookup_erase_ne hother]
    rfl

@[simp]
theorem kindOf_noteScopeSequence (scopes : ScopeTable) (envelope : ViewMutationEnvelope) :
    kindOf (BridgeHub.noteScopeSequence scopes envelope) = kindOf scopes := by
  funext handle
  rw [kindOf, BridgeHub.lookup_noteScopeSequence]
  split_ifs
  · rw [map_map]
    rfl
  · rfl

/-- **What a step does to the kinds of the entries.** -/
theorem kindOf_scopesAfter (s : Nesting) (a : Action) : kindOf (s.server.scopesAfter a) =
      match s.piece a with
      | some (.registerScope registration) =>
        if BridgeHub.isBlank registration.scopeHandle then kindOf s.scopes
        else Function.update (kindOf s.scopes) registration.scopeHandle (some .sandbox)
      | some (.registerToolScope registration) =>
        if (s.server.hub.registerToolScope registration).2.isOk then
          Function.update (kindOf s.scopes) registration.toolScopeHandle (some .tool)
        else kindOf s.scopes
      | some (.unregisterScope scopeHandle) =>
        Function.update (kindOf s.scopes) scopeHandle none
      | _ => kindOf s.scopes := by
  cases a with
  | broadcast nowNs =>
    rw [Server.scopesAfter]
    rcases s.server.emission with _ | envelope
    · rfl
    · -- a watermark is no kind
      exact kindOf_noteScopeSequence ..
  | read id input =>
    rw [Server.scopesAfter, piece]
    rcases (s.server.peers id).reader with _ | ⟨op, ops⟩
    · rfl
    · cases op with
      | registerScope registration =>
        simp only [List.head?_cons, ReaderOp.scopesAfter, BridgeHub.registerScope]
        split_ifs
        · rfl
        · exact kindOf_insert ..
      | registerToolScope registration =>
        simp only [List.head?_cons, ReaderOp.scopesAfter, BridgeHub.registerToolScope]
        split_ifs <;> first | exact kindOf_insert .. | rfl | contradiction
      | unregisterScope scopeHandle => exact kindOf_erase ..
      | _ => rfl
  | _ => rfl

/-- Registering a tool scope leaves every sandbox entry in the table. -/
def KeepsSandboxes (s s' : Nesting) : Prop :=
  ∀ handle, kindOf s.scopes handle = some .sandbox → kindOf s'.scopes handle = some .sandbox

theorem nested_init (config : BridgeServerConfig) : (init config).Nested := by
  intro handle h
  cases h

/-- One step that respects the nesting. -/
theorem Nested.step (h : s.Nested) (hok : s.Respects a) (hstep : s.step bodyBytes a = some s') :
    s'.Nested ∧ (s.RegistersTool a → s.KeepsSandboxes s') := by
  obtain ⟨hscopes, hparent⟩ := step_eq hstep
  have hkinds := kindOf_scopesAfter s a
  rw [← hscopes] at hkinds
  rw [Respects] at hok
  rw [parentAfter] at hparent
  rcases hpiece : s.piece a with _ | op
  · rw [hpiece] at hkinds hparent
    refine ⟨?_, fun ⟨registration, hreg⟩ => by simp [hpiece] at hreg⟩
    intro handle htool
    rw [hkinds] at htool
    rw [hkinds, hparent]
    exact h handle htool
  · rw [hpiece] at hkinds hparent hok
    cases op with
    | registerScope registration =>
      refine ⟨?_, fun ⟨registration, hreg⟩ => by simp [hpiece] at hreg⟩
      intro handle htool
      simp only at hkinds hparent
      rw [hkinds] at htool
      rw [hkinds, hparent]
      split_ifs at htool ⊢
      · exact h handle htool
      · have hne : handle ≠ registration.scopeHandle := by
          rintro rfl
          simp at htool
        rw [update_of_ne hne] at htool
        obtain ⟨parent, hpar, hsand⟩ := h handle htool
        refine ⟨parent, hpar, ?_⟩
        -- a parent that is registered again stays a sandbox
        by_cases hp : parent = registration.scopeHandle
        · rw [hp, update_self]
        · rw [update_of_ne hp, hsand]
    | registerToolScope registration =>
      simp only at hkinds hparent hok
      by_cases hacc : (s.server.hub.registerToolScope registration).2.isOk
      · rw [if_pos hacc] at hkinds hparent
        obtain ⟨hblank, hknown⟩ := (isOk_registerToolScope ..).mp hacc
        obtain ⟨hsand, hfree⟩ := hok hblank hknown
        have hkept : s.KeepsSandboxes s' := by
          intro handle hs
          have hne : handle ≠ registration.toolScopeHandle := by
            rintro rfl
            exact hfree hs
          rw [hkinds, update_of_ne hne, hs]
        refine ⟨?_, fun _ => hkept⟩
        intro handle htool
        rw [hkinds] at htool
        rw [hparent]
        by_cases hhandle : handle = registration.toolScopeHandle
        · rw [hhandle, update_self]
          exact ⟨_, rfl, hkept _ hsand⟩
        · rw [update_of_ne hhandle] at htool ⊢
          obtain ⟨parent, hpar, hs⟩ := h handle htool
          exact ⟨parent, hpar, hkept _ hs⟩
      · rw [if_neg hacc] at hkinds hparent
        refine ⟨?_, fun _ handle hs => by rw [hkinds, hs]⟩
        intro handle htool
        rw [hkinds] at htool
        rw [hkinds, hparent]
        exact h handle htool
    | unregisterScope scopeHandle =>
      simp only at hkinds hparent hok
      refine ⟨?_, fun ⟨registration, hreg⟩ => by simp [hpiece] at hreg⟩
      intro handle htool
      have hne : handle ≠ scopeHandle := by
        rintro rfl
        simp [hkinds] at htool
      rw [hkinds, update_of_ne hne] at htool
      obtain ⟨parent, hpar, hsand⟩ := h handle htool
      have hp : parent ≠ scopeHandle := by
        rintro rfl
        exact hok handle htool hpar
      exact ⟨parent, hparent ▸ hpar, by rw [hkinds, update_of_ne hp, hsand]⟩
    | _ =>
      refine ⟨?_, fun ⟨registration, hreg⟩ => by simp [hpiece] at hreg⟩
      intro handle htool
      rw [hkinds] at htool
      rw [hkinds, hparent]
      exact h handle htool

/-- A step that does not respect the nesting breaks it. -/
theorem Nested.respects (h : s.Nested) (hstep : s.step bodyBytes a = some s')
    (hnested : s'.Nested) (hkept : s.RegistersTool a → s.KeepsSandboxes s') : s.Respects a := by
  obtain ⟨hscopes, hparent⟩ := step_eq hstep
  have hkinds := kindOf_scopesAfter s a
  rw [← hscopes] at hkinds
  rw [parentAfter] at hparent
  rw [Respects]
  split
  · next registration hpiece =>
    intro hblank hknown
    -- an accepted tool scope is a tool entry of the new table
    have hacc := (isOk_registerToolScope s.server.hub registration).mpr ⟨hblank, hknown⟩
    simp only [hpiece, hacc, if_true] at hkinds hparent
    have htool : kindOf s'.scopes registration.toolScopeHandle = some .tool := by
      rw [hkinds, update_self]
    have hfree : kindOf s.scopes registration.toolScopeHandle ≠ some .sandbox := by
      intro hs
      have := hkept ⟨registration, hpiece⟩ _ hs
      rw [htool] at this
      cases this
    refine ⟨?_, hfree⟩
    obtain ⟨parent, hpar, hsand⟩ := hnested _ htool
    rw [hparent, update_self] at hpar
    obtain rfl := some.inj hpar
    by_cases hp : registration.parentScopeHandle = registration.toolScopeHandle
    · rw [hp, htool] at hsand
      cases hsand
    · rwa [hkinds, update_of_ne hp] at hsand
  · next scopeHandle hpiece =>
    intro handle htool hpar
    simp only [hpiece] at hkinds hparent
    by_cases hhandle : handle = scopeHandle
    · -- no tool entry is its own parent
      obtain ⟨parent, hpar', hsand⟩ := h handle htool
      obtain rfl := some.inj (hpar.symm.trans hpar')
      rw [← hhandle, htool] at hsand
      cases hsand
    · have htool' : kindOf s'.scopes handle = some .tool := by
        rw [hkinds, update_of_ne hhandle, htool]
      obtain ⟨parent, hpar', hsand⟩ := hnested handle htool'
      rw [hparent, hpar] at hpar'
      obtain rfl := some.inj hpar'
      rw [hkinds, update_self] at hsand
      cases hsand
  · trivial

/-- **Scope nesting.** In every run whose steps all respect the nesting, every tool entry of
every state reached was accepted under a handle that names a sandbox entry; and from there a
step keeps the tool entries nested, and the sandbox entries if it registers a tool scope, if
and only if it respects the nesting. -/
theorem tool_scopes_nested {config : BridgeServerConfig}
    (h : Reaches (Nesting.step bodyBytes) Respects (init config) s) :
    s.Nested ∧ ∀ a s', s.step bodyBytes a = some s' →
      (s.Respects a ↔ s'.Nested ∧ (s.RegistersTool a → s.KeepsSandboxes s')) := by
  have hnested : s.Nested := by
    refine h.invariant (nested_init config) fun s a s' hs hok hstep => ?_
    exact (hs.step hok hstep).1
  refine ⟨hnested, fun a s' hstep => ⟨fun hok => hnested.step hok hstep, ?_⟩⟩
  rintro ⟨hnext, hkept⟩
  exact hnested.respects hstep hnext hkept

/-! ### Runs -/

open Server (handshake readOp smallConfig)

/-- A sandbox scope is registered and accepted. -/
def registersSandbox : List Action :=
  [.receive 1 (.registerScope { (default : ScopeRegistration) with scopeHandle := "sandbox" }),
    readOp [], readOp []]

/-- A tool scope is registered under the sandbox scope. -/
def registersTool (toolScopeHandle : String) : List Action :=
  [.receive 1 (.registerToolScope { (default : ToolScopeRegistration) with
      parentScopeHandle := "sandbox", toolScopeHandle }), readOp []]

/-- The step drops no scope, and registers tool scopes as `Respects` says. -/
private def RespectsWithoutDrop (s : Nesting) (a : Action) : Prop :=
  match s.piece a with
  | some (.registerToolScope registration) =>
    kindOf s.scopes registration.parentScopeHandle = some .sandbox ∧
      kindOf s.scopes registration.toolScopeHandle ≠ some .sandbox
  | some (.unregisterScope _) => False
  | _ => True

private instance (s : Nesting) (a : Action) : Decidable (RespectsWithoutDrop s a) := by
  unfold RespectsWithoutDrop
  split <;> infer_instance

private theorem respects_of_withoutDrop (s : Nesting) (a : Action)
    (h : RespectsWithoutDrop s a) : s.Respects a := by
  rw [RespectsWithoutDrop] at h
  rw [Respects]
  split at h
  · exact fun _ _ => h
  · exact h.elim
  · trivial

/-- A sandbox scope with one tool scope in it. -/
theorem tool_scopes_nested_of_one_tool :
    ∃ s, Reaches (Nesting.step fun _ => 0) Respects (init (smallConfig 8 8)) s ∧
      kindOf s.scopes "tool" = some .tool ∧ s.Nested := by
  obtain ⟨s, hs, htool⟩ := exists_reaches_of_run (Nesting.step fun _ => 0) RespectsWithoutDrop
    (init (smallConfig 8 8)) (Q := fun s => kindOf s.scopes "tool" = some .tool)
    (handshake ++ registersSandbox ++ registersTool "tool") (by decide)
  have hrespects := hs.mono respects_of_withoutDrop
  exact ⟨s, hrespects, htool, (tool_scopes_nested hrespects).1⟩

/-- **A tool scope outlives its sandbox scope.** -/
theorem tool_scope_orphaned :
    ∃ s, Reaches (Nesting.step fun _ => 0) always (init (smallConfig 8 8)) s ∧ ¬s.Nested := by
  obtain ⟨s, hs, htool, hparent, hgone⟩ := exists_reaches_of_run
    (Nesting.step fun _ => 0) always (init (smallConfig 8 8))
    (Q := fun s => kindOf s.scopes "tool" = some .tool ∧ s.parent "tool" = some "sandbox" ∧
      kindOf s.scopes "sandbox" = none)
    (handshake ++ registersSandbox ++ registersTool "tool" ++
      [readOp [], .receive 1 (.unregisterScope "sandbox"), readOp []]) (by decide)
  refine ⟨s, hs, fun hnested => ?_⟩
  obtain ⟨parent, hpar, hsand⟩ := hnested "tool" htool
  obtain rfl := some.inj (hparent.symm.trans hpar)
  rw [hgone] at hsand
  cases hsand

end Nesting

end AgentSight.Bridge
