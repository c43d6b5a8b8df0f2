import AgentSight.Bridge.Given

/-!
# The negotiated frame ceiling

The agreement names a ceiling on the bodies of frames: the lower of the client's and the
server's, but never under 1024. `write_message` compares with the server's own ceiling, not
with the one agreed, and a message that does not pass ends `writer_loop` with nothing said to
the client. `ceiling_kept` says which steps keep to the agreement.
-/

namespace AgentSight.Bridge

open Transition List Option

/-- Everything given to a connection, and what its reader is about to send. -/
def Link.line (l : Link) : List BridgeMessage := l.front ++ sends l.peer.reader

/-- Nothing but `handle_message` makes answers to hellos. -/
theorem ReaderOp.isAnswer_exec {h h' : BridgeHub} {id : ℕ} {viewFree : Bool} {input : ReaderInput}
    {op : ReaderOp} {ops : List ReaderOp} (hexec : op.exec h id viewFree input = some (h', ops)) :
    ∀ m ∈ sends ops, m.isAnswer = false := by
  cases exec_leaves hexec with
  | replayed =>
    rw [sends_map_sendTo]
    cases h.resume _ <;> simp [resumeReplies, BridgeMessage.isAnswer]
  | _ => simp [sends, BridgeMessage.isAnswer]

/-- The message the action writes, and to which connection. -/
def Server.writes (s : Server) : Action → Option (ℕ × BridgeMessage)
  | .write id => (s.peers id).writer.next.map fun (message, _) => (id, message)
  | .heartbeat id nowNs =>
    match (s.peers id).writer with
    | .waiting => some (id, .heartbeat nowNs)
    | .beat => some (id, .health (s.hub.health nowNs))
    | _ => none
  | _ => none

variable {message : BridgeMessage}

namespace Link

variable {bodyBytes : BridgeMessage → ℕ} {s : Server} {i : ℕ} {a : Action} {l l' : Link}
  {m : BridgeMessage}

theorem mem_line : m ∈ l.line ↔ m ∈ l.peer.sent ∨ m ∈ l.peer.writer.messages ∨
    m ∈ l.queue.items ∨ m ∈ sends l.peer.reader := by
  simp only [line, front, mem_append]
  tauto

theorem mem_deliver (hm : m ∈ (l.deliver message).queue.items) :
    m ∈ l.queue.items ∨ m = message := by
  rw [deliver] at hm
  split_ifs at hm
  · exact OutboundQueue.mem_push hm
  · exact .inl hm

/-- A finished write moves its message. -/
theorem mem_line_finishWrite {fits : Prop} [Decidable fits]
    {writer : Writer} (hwriter : ∀ m ∈ writer.messages, m ∈ l.peer.writer.messages)
    (hm : m ∈ (l.finishWrite fits message writer).line) : m ∈ l.line ∨ m = message := by
  have hreader : (l.finishWrite fits message writer).peer.reader = l.peer.reader := by
    rw [finishWrite]
    split_ifs <;> rfl
  rw [line, hreader, mem_append] at hm
  rw [line, mem_append]
  obtain hm | hm := hm
  · exact (mem_front_finishWrite hwriter hm).imp_left .inl
  · exact .inl (.inr hm)

/-- **Where answers come from**: a step moves them along, or `handle_message` makes one. -/
theorem Step.mem_line (h : Link.Step bodyBytes s i l a l') (hm : m ∈ l'.line)
    (hanswer : m.isAnswer = true) : m ∈ l.line ∨
      ∃ message, a = .receive i message ∧ l.peer.reader = [] ∧
        m ∈ sends (handleMessage s.hub.config l.peer.negotiated message).1 := by
  have hdelivered {message : BridgeMessage} (hmsg : message.isAnswer = false)
      (hm : m ∈ (l.deliver message).queue.items) : m ∈ l.queue.items := by
    obtain hm | rfl := mem_deliver hm
    · exact hm
    · rw [hanswer] at hmsg
      cases hmsg
  -- only `handle_message` makes an answer; every other step sends something else or moves it
  cases h with
  | untouched | passedOver => exact .inl hm
  | opened =>
    rw [Link.mem_line] at hm
    simp [Peer.new, Writer.messages, OutboundQueue.new] at hm
  | fanned | notified | answered =>
    rw [Link.mem_line] at hm ⊢
    exact .inl (hm.imp_right (Or.imp_right (Or.imp_left (hdelivered rfl))))
  | @received message ops negotiated flow hpeer hserving hreader hhandle =>
    rw [Link.mem_line] at hm ⊢
    obtain hm | hm | hm | hm := hm
    · exact .inl (.inl hm)
    · exact .inl (.inr (.inl hm))
    · exact .inl (.inr (.inr (.inl hm)))
    · have hops : m ∈ sends ops := by
        have hm' : m ∈ sends (ops ++ if flow = .close then tearDown else []) := hm
        rw [sends_append, mem_append] at hm'
        refine hm'.resolve_right fun hend => ?_
        split_ifs at hend <;> simp at hend
      refine .inr ⟨message, rfl, hreader, ?_⟩
      rwa [hhandle]
  | hungUp hpeer hserving hreader | timedOut hpeer hserving hreader =>
    rw [Link.mem_line] at hm ⊢
    exact .inl (hm.imp_right (Or.imp_right (Or.imp_right fun hm => by
      simp [sends_pushShutdown] at hm)))
  | @read input op ops hub ops' hreader hexec =>
    have hsends (hm : m ∈ sends (ops' ++ ops)) : m ∈ sends ops := by
      rw [sends_append, mem_append] at hm
      refine hm.resolve_left fun hm => ?_
      have := ReaderOp.isAnswer_exec hexec m hm
      rw [hanswer] at this
      cases this
    have hrest (hm : m ∈ sends ops) : m ∈ sends l.peer.reader := by
      rw [hreader, ← singleton_append, sends_append, mem_append]
      exact .inr hm
    refine .inl ?_
    rw [Link.mem_line] at hm ⊢
    cases op with
    | sendTo message =>
      obtain hm | hm | hm | hm := hm
      · exact .inl hm
      · exact .inr (.inl hm)
      · obtain hm | rfl := mem_deliver hm
        · exact .inr (.inr (.inl hm))
        · exact .inr (.inr (.inr (by simp [hreader])))
      · exact .inr (.inr (.inr (hrest (hsends hm))))
    | pushShutdown reason =>
      obtain hm | hm | hm | hm := hm
      · exact .inl hm
      · exact .inr (.inl hm)
      · obtain hm | rfl := OutboundQueue.mem_push hm
        · exact .inr (.inr (.inl hm))
        · cases hanswer
      · exact .inr (.inr (.inr (hrest (hsends hm))))
    | _ => exact hm.imp_right (Or.imp_right (Or.imp_right fun hm => hrest (hsends hm)))
  | unanswered => exact .inl hm
  | took =>
    rw [Link.mem_line] at hm ⊢
    obtain hm | hm | hm | hm := hm
    · exact .inl (.inl hm)
    · exact .inl (.inr (.inr (.inl (mem_ofTaken hm))))
    · simp [OutboundQueue.take] at hm
    · exact .inl (.inr (.inr (.inr hm)))
  | checked =>
    rw [Link.mem_line] at hm ⊢
    refine .inl (hm.imp_right (Or.imp_left fun hm => ?_))
    split_ifs at hm <;> simp [Writer.messages] at hm
  | woke | failed =>
    rw [Link.mem_line] at hm ⊢
    exact .inl (hm.imp_right (Or.imp_left fun hm => by simp [Writer.messages] at hm))
  | numbered hwriter =>
    rw [Link.mem_line] at hm ⊢
    exact .inl (hm.imp_right (Or.imp_left fun hm => by rw [hwriter]; exact hm))
  | wrote hwriter =>
    obtain hm | rfl := mem_line_finishWrite (fun m hm => Writer.messages_next hwriter hm) hm
    · exact .inl hm
    · obtain ⟨envelope, messages, -, rfl, -⟩ | ⟨messages, hw, -⟩ := Writer.next_eq_some hwriter
      · cases hanswer
      · refine .inl (Link.mem_line.mpr (.inr (.inl ?_)))
        rw [hw]
        exact mem_cons_self
  | beat | reported =>
    obtain hm | rfl := mem_line_finishWrite (by simp [Writer.messages]) hm
    · exact .inl hm
    · cases hanswer

/-- What a step does to the messages written. -/
theorem Step.sent (h : Link.Step bodyBytes s i (s.link i) a l') :
    l'.peer.sent = (s.link i).peer.sent ∨ l'.peer.sent = [] ∨
      ∃ message, s.writes a = some (i, message) ∧ bodyBytes message ≤ s.hub.config.maxFrameBytes ∧
        l'.peer.sent = (s.link i).peer.sent ++ [message] := by
  cases h with
  | opened => exact .inr (.inl rfl)
  | @wrote message writer hwriter =>
    rw [finishWrite]
    split_ifs with hfits
    · have hwrites : s.writes (.write i) = some (i, message) := by
        change ((s.link i).peer.writer.next.map fun (message, _) => (i, message)) = _
        rw [hwriter]
        rfl
      exact .inr (.inr ⟨message, hwrites, hfits, rfl⟩)
    · exact .inl rfl
  | @beat nowNs hwriter =>
    rw [finishWrite]
    split_ifs with hfits
    · have hwrites : s.writes (.heartbeat i nowNs) = some (i, .heartbeat nowNs) := by
        rw [Server.writes, show (s.peers i).writer = .waiting from hwriter]
      exact .inr (.inr ⟨_, hwrites, hfits, rfl⟩)
    · exact .inl rfl
  | @reported nowNs hwriter =>
    rw [finishWrite]
    split_ifs with hfits
    · have hwrites : s.writes (.heartbeat i nowNs) = some (i, .health (s.hub.health nowNs)) := by
        rw [Server.writes, show (s.peers i).writer = .beat from hwriter]
      exact .inr (.inr ⟨_, hwrites, hfits, rfl⟩)
    · exact .inl rfl
  | @read input op => cases op <;> exact .inl rfl
  | _ => exact .inl rfl

end Link

/-! ### What was negotiated -/

/-- A server with the history of its hellos and of its silent ends. -/
structure Ceilings where
  server : Server
  /-- History: the hello of a connection, received before an agreement. -/
  hello : ℕ → Option BridgeHello
  /-- History: the writer of the connection ended at a message that did not fit. -/
  silenced : ℕ → Bool

namespace Ceilings

def init (config : BridgeServerConfig) : Ceilings where
  server := .init config
  hello := fun _ => none
  silenced := fun _ => false

def helloAfter (s : Ceilings) : Action → ℕ → Option BridgeHello
  | .receive id (.hello hello) =>
    if (s.server.peers id).negotiated then s.hello
    else Function.update s.hello id (some hello)
  | _ => s.hello

def silencedAfter (bodyBytes : BridgeMessage → ℕ) (s : Ceilings) (a : Action) : ℕ → Bool :=
  match s.server.writes a with
  | some (id, message) =>
    if bodyBytes message ≤ s.server.hub.config.maxFrameBytes then s.silenced
    else Function.update s.silenced id true
  | none => s.silenced

def step (bodyBytes : BridgeMessage → ℕ) (s : Ceilings) (a : Action) : Option Ceilings :=
  (s.server.step bodyBytes a).map fun server =>
    ⟨server, s.helloAfter a, s.silencedAfter bodyBytes a⟩

/-- The ceiling of every agreement is within both sides' own, every frame written after one is
within it, and no writer has ended at a message that did not fit. -/
structure Kept (bodyBytes : BridgeMessage → ℕ) (s : Ceilings) : Prop where
  agreed : ∀ id agreement, .agreement agreement ∈ (s.server.link id).line →
    ∃ hello, s.hello id = some hello ∧ agreement.maxFrameBytes ≤ hello.maxFrameBytes ∧
      agreement.maxFrameBytes ≤ s.server.hub.config.maxFrameBytes
  within : ∀ id pre agreement post, (s.server.peers id).sent = pre ++ .agreement agreement :: post →
    ∀ m ∈ post, bodyBytes m ≤ agreement.maxFrameBytes
  speaking : ∀ id, s.silenced id = false

/-- A hello is accepted with ceilings of at least 1024 on both sides only, and a message is
written that fits the server's ceiling and the one agreed with its connection. -/
def Respects (bodyBytes : BridgeMessage → ℕ) (s : Ceilings) (a : Action) : Prop :=
  (∀ id hello, a = .receive id (.hello hello) → (s.server.peers id).negotiated = false →
    bridgeProtocolVersion ∈ hello.supportedVersions →
    1024 ≤ hello.maxFrameBytes ∧ 1024 ≤ s.server.hub.config.maxFrameBytes) ∧
  ∀ id message, s.server.writes a = some (id, message) →
    bodyBytes message ≤ s.server.hub.config.maxFrameBytes ∧
    ∀ agreement, .agreement agreement ∈ (s.server.peers id).sent →
      bodyBytes message ≤ agreement.maxFrameBytes

/-- Every agreement is with a connection that has negotiated, and its ceiling is the lower of
the two or 1024. -/
def Known (s : Ceilings) : Prop :=
  ∀ id agreement, .agreement agreement ∈ (s.server.link id).line →
    (s.server.peers id).negotiated = true ∧ ∃ hello, s.hello id = some hello ∧
      agreement.maxFrameBytes = max (min hello.maxFrameBytes s.server.hub.config.maxFrameBytes) 1024

variable {bodyBytes : BridgeMessage → ℕ} {s s' : Ceilings} {a : Action}

theorem step_eq (h : s.step bodyBytes a = some s') :
    s.server.step bodyBytes a = some s'.server ∧ s'.hello = s.helloAfter a ∧
      s'.silenced = s.silencedAfter bodyBytes a := by
  obtain ⟨server, hserver, rfl⟩ := map_eq_some_iff.mp h
  exact ⟨hserver, rfl, rfl⟩

theorem config_of_step {s s' : Server} (h : s.step bodyBytes a = some s') :
    s'.hub.config = s.hub.config :=
  Server.config_of_effect (Server.step_effect h)

/-- The hello that an agreement answers. -/
theorem sends_agreement {config : BridgeServerConfig} {negotiated : Bool}
    {agreement : BridgeAgreement}
    (h : .agreement agreement ∈ sends (handleMessage config negotiated message).1) :
    negotiated = false ∧ (handleMessage config negotiated message).2.1 = true ∧
      ∃ hello, message = .hello hello ∧ agreement.maxFrameBytes =
        max (min hello.maxFrameBytes config.maxFrameBytes) 1024 := by
  cases negotiated with
  | true => cases message <;> simp [handleMessage, sends] at h
  | false =>
    cases message with
    | hello hello =>
      simp only [handleMessage, Bool.not_false, if_true] at h ⊢
      split_ifs at h ⊢
      · rw [sends_sendTo, mem_cons] at h
        obtain h | h := h
        · obtain rfl := BridgeMessage.agreement.inj h
          exact ⟨trivial, rfl, hello, rfl, rfl⟩
        · simp [sends] at h
      · simp [sends] at h
    | _ => simp [handleMessage, sends] at h

/-- A negotiated connection stays negotiated. -/
theorem negotiated_of_step {s s' : Server} {id : ℕ} (h : s.step bodyBytes a = some s')
    (hneg : (s.peers id).negotiated = true) :
    (s'.peers id).negotiated = true ∨ (s'.link id).line = [] := by
  have hlink := Server.step_link h id
  change (s'.link id).peer.negotiated = true ∨ _
  have hneg' : (s.link id).peer.negotiated = true := hneg
  generalize s'.link id = l' at hlink
  cases hlink with
  | opened => exact .inr rfl
  | @received message ops negotiated flow hpeer hserving hreader hhandle =>
    have := @Link.handleMessage_negotiated s.hub.config message
    rw [hneg'] at hhandle
    rw [hhandle] at this
    exact .inl this
  | @read input op => cases op <;> exact .inl hneg'
  | wrote | beat | reported =>
    rw [Link.finishWrite]
    split_ifs <;> exact .inl hneg'
  | _ => exact .inl hneg'

/-- The hello of a negotiated connection stays. -/
theorem helloAfter_of_negotiated {id : ℕ} (hneg : (s.server.peers id).negotiated = true) :
    s.helloAfter a id = s.hello id := by
  cases a with
  | receive id' message =>
    cases message with
    | hello hello =>
      rw [helloAfter]
      split_ifs with hneg'
      · rfl
      · have hne : id ≠ id' := by
          rintro rfl
          exact hneg' hneg
        rw [Function.update_of_ne hne]
    | _ => rfl
  | _ => rfl

/-- An agreement, once made, stays the connection's. -/
theorem Known.step (h : s.Known) (hstep : s.step bodyBytes a = some s') : s'.Known := by
  obtain ⟨hserver, hhello, -⟩ := step_eq hstep
  intro id agreement hm
  have hlink := Server.step_link hserver id
  rw [config_of_step hserver, hhello]
  obtain hold | ⟨message, rfl, hreader, hnew⟩ := hlink.mem_line hm rfl
  · obtain ⟨hneg, hello, hknown, hmax⟩ := h id agreement hold
    obtain hneg' | hnil := negotiated_of_step hserver hneg
    · exact ⟨hneg', hello, by rw [helloAfter_of_negotiated hneg, hknown], hmax⟩
    · simp [hnil] at hm
  · obtain ⟨hneg, hneg', hello, rfl, hmax⟩ := sends_agreement hnew
    refine ⟨?_, hello, ?_, hmax⟩
    · change (s'.server.link id).peer.negotiated = true
      generalize s'.server.link id = l' at hlink
      cases hlink with
      | untouched htarget => exact absurd rfl htarget
      | received hpeer hserving hreader hhandle =>
        rw [hhandle] at hneg'
        exact hneg'
    · have hneg'' : (s.server.peers id).negotiated = false := hneg
      rw [helloAfter, hneg'']
      simp

theorem kept_init (config : BridgeServerConfig) : Kept bodyBytes (init config) where
  agreed id agreement hm := by
    have hnil : ((init config).server.link id).line = [] := rfl
    simp [hnil] at hm
  within id pre agreement post hsent := by
    have hnil : ((init config).server.peers id).sent = [] := rfl
    simp [hnil] at hsent
  speaking _ := rfl

theorem known_init (config : BridgeServerConfig) : (init config).Known := by
  intro id agreement hm
  have hnil : ((init config).server.link id).line = [] := rfl
  simp [hnil] at hm

/-- A step that keeps to the ceilings. -/
theorem Kept.step (h : s.Kept bodyBytes) (hknown : s.Known) (hok : s.Respects bodyBytes a)
    (hstep : s.step bodyBytes a = some s') : s'.Kept bodyBytes := by
  obtain ⟨hserver, hhello, hsilenced⟩ := step_eq hstep
  refine ⟨fun id agreement hm => ?_, fun id pre agreement post hsent m hm => ?_, fun id => ?_⟩
  · -- an agreement is old, or answers the hello of this step
    have hlink := Server.step_link hserver id
    rw [config_of_step hserver, hhello]
    obtain hold | ⟨message, rfl, hreader, hnew⟩ := hlink.mem_line hm rfl
    · rw [helloAfter_of_negotiated (hknown id agreement hold).1]
      exact h.agreed id agreement hold
    · obtain ⟨hneg, -, hello, rfl, hmax⟩ := sends_agreement hnew
      have hneg' : (s.server.peers id).negotiated = false := hneg
      have hversion : bridgeProtocolVersion ∈ hello.supportedVersions := by
        by_contra hnot
        simp [handleMessage, hneg, hnot, sends] at hnew
      obtain ⟨hclient, hown⟩ := hok.1 id hello rfl hneg' hversion
      refine ⟨hello, ?_, by omega, by omega⟩
      rw [helloAfter, hneg']
      simp
  · change (s'.server.link id).peer.sent = _ at hsent
    obtain hsame | hnil | ⟨message, hwrites, -, hmore⟩ := (Server.step_link hserver id).sent
    · exact h.within id pre agreement post (hsame ▸ hsent) m hm
    · simp [hnil] at hsent
    · -- what is written now comes last
      obtain rfl | ⟨post', last, rfl⟩ := post.eq_nil_or_concat
      · simp at hm
      · rw [concat_eq_append] at hsent hm
        rw [hmore, ← cons_append, ← append_assoc] at hsent
        obtain ⟨hold, hlast⟩ := append_inj' hsent rfl
        obtain rfl := singleton_inj.mp hlast
        obtain hm | hm := mem_append.mp hm
        · exact h.within id pre agreement post' hold m hm
        · rw [mem_singleton.mp hm]
          refine (hok.2 id message hwrites).2 agreement ?_
          change _ ∈ (s.server.link id).peer.sent
          simp [hold]
  · rw [hsilenced, silencedAfter]
    cases hwrites : s.server.writes a with
    | none => exact h.speaking id
    | some write =>
      simp only [if_pos (hok.2 write.1 write.2 hwrites).1]
      exact h.speaking id

/-- A message that fits is written. -/
theorem sent_of_writes {s s' : Server} {id : ℕ}
    (h : s.step bodyBytes a = some s') (hwrites : s.writes a = some (id, message))
    (hfits : bodyBytes message ≤ s.hub.config.maxFrameBytes) :
    (s'.peers id).sent = (s.peers id).sent ++ [message] := by
  have hlink := Server.step_link h id
  change (s'.link id).peer.sent = (s.link id).peer.sent ++ [message]
  generalize s'.link id = l' at hlink
  cases a with
  | write id' =>
    obtain ⟨⟨message', writer⟩, hnext, hpair⟩ := map_eq_some_iff.mp hwrites
    obtain ⟨rfl, rfl⟩ := Prod.mk.inj hpair
    cases hlink with
    | untouched htarget => exact absurd rfl htarget
    | wrote hwriter =>
      have hwriter' : (s.peers id').writer.next = _ := hwriter
      rw [hnext] at hwriter'
      obtain ⟨rfl, rfl⟩ := Prod.mk.inj (some.inj hwriter')
      rw [Link.finishWrite, if_pos hfits]
  | heartbeat id' nowNs =>
    rw [Server.writes] at hwrites
    split at hwrites
    · next hwaiting =>
      obtain ⟨rfl, rfl⟩ := Prod.mk.inj (some.inj hwrites)
      cases hlink with
      | untouched htarget => exact absurd rfl htarget
      | beat hwriter => rw [Link.finishWrite, if_pos hfits]
      | reported hwriter =>
        have hwriter' : (s.peers id').writer = .beat := hwriter
        rw [hwaiting] at hwriter'
        cases hwriter'
    · next hbeat =>
      obtain ⟨rfl, rfl⟩ := Prod.mk.inj (some.inj hwrites)
      cases hlink with
      | untouched htarget => exact absurd rfl htarget
      | beat hwriter =>
        have hwriter' : (s.peers id').writer = .waiting := hwriter
        rw [hbeat] at hwriter'
        cases hwriter'
      | reported hwriter => rw [Link.finishWrite, if_pos hfits]
    · cases hwrites
  | _ => cases hwrites

/-- A step that does not keep to the ceilings breaks what was kept. -/
theorem Kept.respects (hstep : s.step bodyBytes a = some s') (hkept : s'.Kept bodyBytes) :
    s.Respects bodyBytes a := by
  obtain ⟨hserver, hhello, hsilenced⟩ := step_eq hstep
  refine ⟨?_, fun id message hwrites => ?_⟩
  · rintro id hello rfl hneg hversion
    have hlink := Server.step_link hserver id
    -- the hello is answered with an agreement, which is within both limits by assumption
    have hnew : ∃ agreement, .agreement agreement ∈ (s'.server.link id).line ∧
        agreement.maxFrameBytes =
          max (min hello.maxFrameBytes s.server.hub.config.maxFrameBytes) 1024 := by
      generalize s'.server.link id = l' at hlink
      have hneg' : (s.server.link id).peer.negotiated = false := hneg
      cases hlink with
      | untouched htarget => exact absurd rfl htarget
      | received hpeer hserving hreader hhandle =>
        simp only [handleMessage, hneg', hversion, Bool.not_false, if_true, not_true_eq_false,
          if_false, Prod.mk.injEq] at hhandle
        obtain ⟨rfl, rfl, rfl⟩ := hhandle
        exact ⟨_, Link.mem_line.mpr (.inr (.inr (.inr mem_cons_self))), rfl⟩
    obtain ⟨agreement, hm, hmax⟩ := hnew
    obtain ⟨hello', hknown, hclient, hown⟩ := hkept.agreed id agreement hm
    rw [config_of_step hserver] at hown
    rw [hhello, helloAfter, hneg] at hknown
    obtain rfl : hello = hello' := by simpa using hknown
    omega
  · have hfits : bodyBytes message ≤ s.server.hub.config.maxFrameBytes := by
      by_contra hbig
      have := hkept.speaking id
      simp [hsilenced, silencedAfter, hwrites, hbig] at this
    refine ⟨hfits, fun agreement hm => ?_⟩
    obtain ⟨pre, post, hsplit⟩ := append_of_mem hm
    have hsent : (s'.server.peers id).sent =
        pre ++ .agreement agreement :: (post ++ [message]) := by
      rw [← cons_append, ← append_assoc, ← hsplit]
      exact sent_of_writes hserver hwrites hfits
    exact hkept.within id pre agreement _ hsent message (by simp)

/-- **The negotiated ceiling.** In every run whose steps all keep to the ceilings, every
agreement is within both sides' own ceiling, every frame written after it is within the one
agreed, and no message that does not fit has ended a writer; and a step from there keeps to
the ceilings if and only if this is so after it. -/
theorem ceiling_kept {config : BridgeServerConfig}
    (h : Reaches (step bodyBytes) (Respects bodyBytes) (init config) s) :
    s.Kept bodyBytes ∧ ∀ a s', s.step bodyBytes a = some s' →
      (s.Respects bodyBytes a ↔ s'.Kept bodyBytes) := by
  obtain ⟨hkept, hknown⟩ : s.Kept bodyBytes ∧ s.Known := by
    refine h.invariant (I := fun s => s.Kept bodyBytes ∧ s.Known)
      ⟨kept_init config, known_init config⟩ fun s a s' hs hok hstep => ?_
    exact ⟨hs.1.step hs.2 hok hstep, hs.2.step hstep⟩
  exact ⟨hkept, fun a s' hstep => ⟨fun hok => hkept.step hknown hok hstep, Kept.respects hstep⟩⟩

/-! ### Runs -/

open Server (emitRow readOp smallConfig)

/-- A hello with this ceiling, and its agreement written. -/
def agreesOn (maxFrameBytes : ℕ) : List Action :=
  [.connect, .receive 1
      (.hello { (default : BridgeHello) with supportedVersions := [1], maxFrameBytes }),
    readOp [], readOp [], readOp [], .take 1, .write 1, .write 1]

/-- Bodies of 100 bytes, and mutations that fill a ceiling of 1024. -/
def fillingBytes : BridgeMessage → ℕ
  | .mutation _ => 1024
  | _ => 100

private def agreedOn1024 : BridgeMessage → Bool
  | .agreement agreement => 1024 ≤ agreement.maxFrameBytes
  | _ => true

/-- The steps of a run in which every ceiling is 1024. -/
private def modest (s : Ceilings) : Action → Bool
  | .receive _ (.hello hello) => 1024 ≤ hello.maxFrameBytes
  | .write id | .heartbeat id _ => (s.server.peers id).sent.all agreedOn1024
  | _ => true

private def Modest (s : Ceilings) (a : Action) : Prop :=
  1024 ≤ s.server.hub.config.maxFrameBytes ∧ modest s a = true

private instance decidableModest (s : Ceilings) (a : Action) : Decidable (Modest s a) :=
  inferInstanceAs (Decidable (_ ∧ _))

private theorem fillingBytes_le (message : BridgeMessage) : fillingBytes message ≤ 1024 := by
  cases message <;> simp [fillingBytes]

private theorem respects_of_modest (s : Ceilings) (a : Action) (h : Modest s a) :
    s.Respects fillingBytes a := by
  obtain ⟨hserver, hstep⟩ := h
  refine ⟨?_, fun id message hwrites => ⟨(fillingBytes_le message).trans hserver, ?_⟩⟩
  · rintro id hello rfl - -
    exact ⟨of_decide_eq_true hstep, hserver⟩
  · intro agreement hm
    refine (fillingBytes_le message).trans ?_
    cases a with
    | write id' =>
      obtain ⟨-, -, ⟨⟩⟩ := Option.map_eq_some_iff.mp hwrites
      simpa [agreedOn1024] using all_eq_true.mp hstep _ hm
    | heartbeat id' nowNs =>
      have hid : id' = id := by
        simp only [Server.writes] at hwrites
        split at hwrites <;> simp_all
      subst hid
      simpa [agreedOn1024] using all_eq_true.mp hstep _ hm
    | _ => cases hwrites

/-- A client and a server that agree on 1024, and a mutation of this size. -/
theorem ceiling_kept_of_1024 :
    ∃ s, Reaches (step fillingBytes) (Respects fillingBytes) (init (smallConfig 8 8)) s ∧
      (s.server.peers 1).sent.map fillingBytes = [100, 100, 1024] ∧ s.Kept fillingBytes := by
  obtain ⟨s, hs, hsent⟩ := exists_reaches_of_run (step fillingBytes) Modest
    (init (smallConfig 8 8))
    (Q := fun s => (s.server.peers 1).sent.map fillingBytes = [100, 100, 1024])
    (agreesOn 1024 ++ emitRow ++ [.take 1, .write 1]) (by decide)
  have hrespects := hs.mono respects_of_modest
  exact ⟨s, hrespects, hsent, (ceiling_kept hrespects).1⟩

/-- **The ceiling is raised above the client's own**: one that takes 512 bytes is told 1024. -/
theorem ceiling_above_client : ¬∀ (config : BridgeServerConfig) (s : Ceilings),
      Reaches (step fun _ => 0) always (init config) s → s.Kept fun _ => 0 := by
  intro hall
  obtain ⟨s, hs, hsent, hhello⟩ := exists_reaches_of_run (step fun _ => 0) always
    (init (smallConfig 8 8))
    (Q := fun s => (s.server.peers 1).sent.any (fun
        | .agreement agreement => agreement.maxFrameBytes == 1024
        | _ => false) = true ∧
      (s.hello 1).map (·.maxFrameBytes) = some 512)
    (agreesOn 512) (by decide)
  obtain ⟨m, hm, hagreed⟩ := any_eq_true.mp hsent
  cases m with
  | agreement agreement =>
    have hline : .agreement agreement ∈ (s.server.link 1).line := Link.mem_line.mpr (.inl hm)
    obtain ⟨hello, hknown, hle, -⟩ := (hall _ s hs).agreed 1 agreement hline
    rw [hknown, map_some, some.injEq] at hhello
    have hmax : agreement.maxFrameBytes = 1024 := by simpa using hagreed
    omega
  | _ => cases hagreed

end Ceilings

end AgentSight.Bridge
