import AgentSight.Controller.NodeRelay

/-!
# Forwarded requests of a relay

Every forwarded request is read, pending or settled, and is so exactly once: the three lists of
a state together are a permutation of the numbers given out (`Sound.accounted`). The handlers
move a request from one list to the next. The one that can lose it is `webSocketMessage`: the
entry leaves `pending` before the response is built, and building it throws for a status that
admits no body and for a body that has no text. `lifecycle_kept` is about the runs in which no
awaited answer is of that kind, `request_lost` is one with the status 204.
-/

namespace AgentSight.Controller.NodeRelay

open KeyedTable Transition List Option
open scoped List

/-! ### The property -/

/-- The numbers of the requests, wherever they are. -/
def waiters (s : NodeRelay) : List ℕ :=
  s.reading.map ForwardCall.waiter ++ s.pending.map PendingRequest.waiter ++
    s.replies.map Reply.waiter

/-- A reply is the node's response to the envelope with the request's own id, or it reports a
timeout or a failure. -/
def Fits (s : NodeRelay) (reply : Reply) : Prop :=
  match reply.cause with
  | .answered id => ⟨id, reply.waiter⟩ ∈ s.issued ∧ reply.response.isSome
  | .timeout => reply.response = some (jsonError "node_timeout" 504)
  | .failure => ∀ response ∈ reply.response, 400 ≤ response.status

/-- The requests' lifecycle, as seen in one state. -/
structure Lifecycle (numberText : JsNumber → String) (s : NodeRelay) : Prop where
  capped : s.pending.length ≤ maxPendingRelayRequests
  /-- Each request is read, pending or settled, and no two of these, nor one of them twice. -/
  accounted : s.waiters.Perm (List.range s.received)
  fits : ∀ reply ∈ s.replies, s.Fits reply
  /-- No id went out for two requests. -/
  distinct : ∀ a ∈ s.issued, ∀ b ∈ s.issued, a.id = b.id → a.waiter = b.waiter
  /-- What nobody answers is settled by its timer. -/
  settles : ∀ entry ∈ s.pending, ∃ s', step numberText s (.timeout entry) = some s' ∧
    entry.waiter ∈ s'.replies.map Reply.waiter

/-! ### Answers that a response can be built from -/

/-- The status of the message admits a body, and the body it carries has a text. -/
def Buildable (response : JsValue) : Prop :=
  responseStatus response ∉ nullBodyStatuses ∧
    ∀ body ∈ response.field "body", body.truthy = true → body.hasText = true

theorem responseStatus_bounds (response : JsValue) :
    200 ≤ responseStatus response ∧ responseStatus response ≤ 599 := by
  unfold responseStatus
  split
  · next n _ =>
    cases hn : n.integerIn 200 599 with
    | none => decide
    | some status => exact JsNumber.integerIn_bounds hn
  · decide

theorem isSome_responseBody (numberText : JsNumber → String) (response : JsValue) :
    (responseBody numberText response).isSome = true ↔
      ∀ body ∈ response.field "body", body.truthy = true → body.hasText = true := by
  unfold responseBody
  split
  · next body hbody =>
    split
    · next htruthy => simp [hbody, htruthy, JsValue.isSome_toText]
    · next htruthy => simp [hbody, htruthy]
  · next hbody => simp [hbody]

theorem buildResponse_isSome (numberText : JsNumber → String) (response : JsValue) :
    (buildResponse numberText response).isSome = true ↔ Buildable response := by
  obtain ⟨hlow, hhigh⟩ := responseStatus_bounds response
  rw [Buildable, ← isSome_responseBody numberText]
  unfold buildResponse
  cases responseBody numberText response with
  | none => simp
  | some body => simp [newResponse, hlow, hhigh]

/-! ### The invariant -/

structure Sound (s : NodeRelay) : Prop where
  capped : s.pending.length ≤ maxPendingRelayRequests
  accounted : s.waiters.Perm (List.range s.received)
  fits : ∀ reply ∈ s.replies, s.Fits reply
  timers : s.timers = s.pending
  ids : (s.issued.map PendingRequest.id).Nodup
  pending : s.pending.Sublist s.issued

namespace Sound

variable {s : NodeRelay}

theorem lifecycle (h : s.Sound) (numberText : JsNumber → String) : s.Lifecycle numberText where
  capped := h.capped
  accounted := h.accounted
  fits := h.fits
  distinct := fun _ ha _ hb hid =>
    congrArg PendingRequest.waiter (inj_on_of_nodup_map h.ids ha hb hid)
  settles := by
    intro entry hentry
    have htimer : entry ∈ s.timers := h.timers ▸ hentry
    refine ⟨s.fireTimer entry, if_pos htimer, ?_⟩
    simp [fireTimer, settle, deletePending]

theorem pending_ids (h : s.Sound) : (s.pending.map PendingRequest.id).Nodup :=
  h.ids.sublist (h.pending.map _)

theorem pending_waiters (h : s.Sound) : (s.pending.map PendingRequest.waiter).Nodup := by
  have hall : s.waiters.Nodup := h.accounted.nodup_iff.mpr nodup_range
  exact (nodup_append.mp (nodup_append.mp hall).1).2.1

end Sound

/-- What the record says of a reply does not change when more ids are issued. -/
theorem Fits.mono {s s' : NodeRelay} {reply : Reply} (h : s.Fits reply)
    (hissued : s.issued ⊆ s'.issued) : s'.Fits reply := by
  unfold Fits at h ⊢
  split
  · next id hid =>
    simp only [hid] at h
    exact ⟨hissued h.1, h.2⟩
  · next hcause => simpa [hcause] using h
  · next hcause => simpa [hcause] using h

/-! ### What the handlers do to it -/

section Handlers

variable {s : NodeRelay} (h : s.Sound)
include h

theorem sound_sockets (sockets : List NodeSocket) : { s with sockets }.Sound :=
  ⟨h.capped, h.accounted, h.fits, h.timers, h.ids, h.pending⟩

theorem sound_sent (sent : List Sent) : { s with sent }.Sound :=
  ⟨h.capped, h.accounted, h.fits, h.timers, h.ids, h.pending⟩

/-- The removal of an entry and its timer, as the handlers write it. -/
theorem remove_eq {entry : PendingRequest} (hentry : entry ∈ s.pending) :
    (s.deletePending entry.id).clearTimer entry.waiter =
      { s with pending := s.pending.erase entry, timers := s.pending.erase entry } := by
  simp [deletePending, clearTimer, h.timers, delete_eq_erase h.pending_ids hentry,
    delete_eq_erase h.pending_waiters hentry]

/-- An entry leaves `pending` together with its timer, and its promise is settled. -/
theorem sound_settlePending {entry : PendingRequest} (hentry : entry ∈ s.pending)
    (cause : Cause) (response : Option Response) (hfits : s.Fits ⟨entry.waiter, cause, response⟩) :
    ({ s with pending := s.pending.erase entry, timers := s.pending.erase entry }.settle
      entry.waiter cause response).Sound where
  capped := (length_erase_le).trans h.capped
  accounted := by
    refine Perm.trans ?_ h.accounted
    have hpending := (perm_cons_erase hentry).map PendingRequest.waiter
    simp only [waiters, settle, map_append, map_cons, map_nil,
      append_assoc] at hpending ⊢
    refine Perm.append_left _ ?_
    calc
      _ = ((s.pending.erase entry).map PendingRequest.waiter ++ s.replies.map Reply.waiter) ++
          [entry.waiter] := (append_assoc ..).symm
      _ ~ entry.waiter :: ((s.pending.erase entry).map PendingRequest.waiter ++
          s.replies.map Reply.waiter) := perm_append_singleton ..
      _ ~ _ := hpending.symm.append_right _
  fits := by
    intro reply hreply
    obtain hreply | hreply := mem_append.mp hreply
    · exact h.fits reply hreply
    · obtain rfl := mem_singleton.mp hreply
      exact hfits
  timers := rfl
  ids := h.ids
  pending := erase_sublist.trans h.pending

variable {call : ForwardCall}

/-- A call that still reads its body is settled. -/
theorem sound_settleReading (hcall : call ∈ s.reading) (cause : Cause)
    (response : Option Response) (hfits : s.Fits ⟨call.waiter, cause, response⟩) :
    ({ s with reading := s.reading.erase call }.settle call.waiter cause response).Sound where
  capped := h.capped
  accounted := by
    refine Perm.trans ?_ h.accounted
    have hreading := (perm_cons_erase hcall).map ForwardCall.waiter
    simp only [waiters, settle, map_append, map_cons, map_nil, ← append_assoc]
    exact (perm_append_singleton ..).trans ((hreading.symm.append_right _).append_right _)
  fits := by
    intro reply hreply
    obtain hreply | hreply := mem_append.mp hreply
    · exact h.fits reply hreply
    · obtain rfl := mem_singleton.mp hreply
      exact hfits
  timers := h.timers
  ids := h.ids
  pending := h.pending

/-- A call moves from reading to `pending` under an id that was never drawn. -/
theorem sound_queue (hcall : call ∈ s.reading) {id : String}
    (hfresh : ∀ entry ∈ s.issued, entry.id ≠ id)
    (hroom : s.pending.length < maxPendingRelayRequests) :
    ({ s with reading := s.reading.erase call, timers := s.timers ++ [⟨id, call.waiter⟩],
              pending := s.pending ++ [⟨id, call.waiter⟩],
              issued := s.issued ++ [⟨id, call.waiter⟩] } : NodeRelay).Sound where
  capped := by
    rw [length_append]
    exact hroom
  accounted := by
    refine Perm.trans ?_ h.accounted
    have hreading := (perm_cons_erase hcall).map ForwardCall.waiter
    simp only [waiters, map_append, map_cons, map_nil, ← append_assoc]
    refine Perm.append_right _ ?_
    exact (perm_append_singleton ..).trans (hreading.symm.append_right _)
  fits := fun reply hreply => (h.fits reply hreply).mono (subset_append_left _ _)
  timers := by rw [h.timers]
  ids := by
    rw [map_append, nodup_append]
    refine ⟨h.ids, nodup_singleton _, ?_⟩
    intro a ha b hb
    obtain ⟨entry, hentry, rfl⟩ := mem_map.mp ha
    obtain rfl := mem_singleton.mp hb
    exact hfresh entry hentry
  pending := h.pending.append (Sublist.refl _)

theorem sound_forwardRequest : s.forwardRequest.Sound := by
  have hrange : (s.waiters ++ [s.received]) ~ List.range (s.received + 1) := by
    rw [range_succ]
    exact h.accounted.append_right _
  unfold forwardRequest
  split
  · refine ⟨h.capped, ?_, fun reply hreply => ?_, h.timers, h.ids, h.pending⟩
    · simpa [waiters, settle] using hrange
    · obtain hreply | hreply := mem_append.mp hreply
      · exact h.fits reply hreply
      · obtain rfl := mem_singleton.mp hreply
        exact fun response hresponse => by
          obtain rfl := mem_some.mp hresponse
          decide
  · refine ⟨h.capped, Perm.trans ?_ hrange, h.fits, h.timers, h.ids, h.pending⟩
    simp only [waiters, map_append, map_cons, map_nil, append_assoc]
    refine Perm.append_left _ ?_
    rw [← append_assoc (s.pending.map PendingRequest.waiter)]
    exact perm_append_comm

theorem sound_fireTimer {timer : PendingRequest} (htimer : timer ∈ s.timers) :
    (s.fireTimer timer).Sound := by
  rw [h.timers] at htimer
  have hdelete := delete_eq_erase h.pending_ids htimer
  have hsettled := sound_settlePending h htimer .timeout (some (jsonError "node_timeout" 504)) rfl
  simpa [fireTimer, deletePending, h.timers, hdelete] using hsettled

theorem sound_resumeForward (hcall : call ∈ s.reading)
    (input : Option JsValue) {id : String} (hfresh : ∀ entry ∈ s.issued, entry.id ≠ id)
    (sends : Bool) : (s.resumeForward call input id sends).Sound := by
  have hsettle : ∀ code status, 400 ≤ status →
      ({ s with reading := s.reading.erase call }.settle call.waiter .failure
        (some (jsonError code status))).Sound := by
    intro code status hstatus
    refine sound_settleReading h hcall _ _ fun response hresponse => ?_
    obtain rfl := mem_some.mp hresponse
    exact hstatus
  have hthrow : ({ s with reading := s.reading.erase call }.settle call.waiter .failure
      none).Sound := sound_settleReading h hcall _ _ fun response hresponse => by cases hresponse
  unfold resumeForward
  dsimp only
  split
  · exact hthrow
  · exact hthrow
  · split
    · exact hsettle _ _ (by decide)
    · next checked _ =>
      unfold enqueue
      split
      · exact hsettle _ _ (by decide)
      · next hroom =>
        have hnew : ¬ (find PendingRequest.id s.pending id).isSome = true := by
          intro hsome
          obtain ⟨entry, hentry, hid⟩ := (find_isSome ..).mp hsome
          exact hfresh entry (h.pending.subset hentry) hid
        have hqueued := sound_queue h hcall hfresh (Nat.lt_of_not_le hroom)
        simp only [upsert, hnew, Bool.false_eq_true, if_false]
        split
        · exact sound_sent hqueued _
        · -- what `catch` undoes is what was just set
          have hentry : ⟨id, call.waiter⟩ ∈ s.pending ++ [(⟨id, call.waiter⟩ : PendingRequest)] :=
            mem_append_right _ (mem_singleton_self _)
          have hsettled := sound_settlePending hqueued hentry .failure
            (some (jsonError "node_offline" 503)) fun response hresponse => by
              obtain rfl := mem_some.mp hresponse
              decide
          rw [← remove_eq hqueued hentry] at hsettled
          exact hsettled

theorem sound_webSocketMessage (numberText : JsNumber → String) (message : Option JsValue)
    (hbuildable : ∀ response ∈ message, ∀ id ∈ answeredId response,
      (∃ entry ∈ s.pending, entry.id = id) → Buildable response) :
    (s.webSocketMessage numberText message).Sound := by
  unfold webSocketMessage
  split
  · exact h
  · next response =>
    split
    · exact h
    · next id hid =>
      split
      · exact h
      · next entry hfind =>
        obtain ⟨hentry, rfl⟩ := mem_of_find hfind
        have hbuilt := hbuildable response rfl _ hid ⟨entry, hentry, rfl⟩
        obtain ⟨built, hbuilt⟩ :=
          isSome_iff_exists.mp ((buildResponse_isSome numberText response).mpr hbuilt)
        simp only [hbuilt, remove_eq h hentry]
        exact sound_settlePending h hentry _ _ ⟨h.pending.subset hentry, rfl⟩

end Handlers

/-! ### Runs -/

/-- An answer to a pending request is one that a response can be built from. -/
def Admits (s : NodeRelay) : Event → Prop
  | .message message => ∀ response ∈ message, ∀ id ∈ answeredId response,
      (∃ entry ∈ s.pending, entry.id = id) → Buildable response
  | _ => True

theorem sound_init : init.Sound :=
  ⟨by decide, by decide, fun _ h => (not_mem_nil h).elim, rfl, nodup_nil,
    Sublist.slnil⟩

theorem Sound.step {numberText : JsNumber → String} {s s' : NodeRelay} {e : Event} (h : s.Sound)
    (hok : s.Admits e) (hs : s.step numberText e = some s') : s'.Sound := by
  cases e with
  | accept | close socket =>
    obtain rfl := some.inj hs
    exact sound_sockets h _
  | forward =>
    obtain rfl := some.inj hs
    exact sound_forwardRequest h
  | body call input id sends =>
    simp only [NodeRelay.step] at hs
    split at hs
    · next hbody =>
      obtain rfl := some.inj hs
      exact sound_resumeForward h hbody.1 input hbody.2 sends
    · cases hs
  | message message =>
    obtain rfl := some.inj hs
    exact sound_webSocketMessage h numberText message hok
  | timeout timer =>
    simp only [NodeRelay.step] at hs
    split at hs
    · next htimer =>
      obtain rfl := some.inj hs
      exact sound_fireTimer h htimer
    · cases hs

/-- **Every forwarded request is settled exactly once.** In every run whose awaited answers
have a status that admits a body and a body with a text, `pending` stays within its cap, each
request is read, pending or settled and only one of these, and the one that waits can be
settled by its timer. -/
theorem lifecycle_kept {numberText : JsNumber → String} {s : NodeRelay}
    (h : Reaches (step numberText) Admits init s) : s.Lifecycle numberText := by
  have hsound : s.Sound :=
    h.invariant sound_init fun _ _ _ hs hok hstep => hs.step hok hstep
  exact hsound.lifecycle numberText

/-! ### Two runs -/

section Example

/-- The answer of a node with the status and a short body. -/
def answerOf (id : String) (status : ℚ) : JsValue :=
  .object [("type", .string "response"), ("id", .string id),
    ("status", .number (.finite status)), ("body", .string "ok")]

/-- A node connects, a request for its overview is forwarded, and the node answers it. -/
def exchange (status : ℚ) : List Event :=
  [.accept, .forward,
    .body ⟨0, 0⟩ (some (.object [("method", .string "GET"), ("path", .string "/api/v1/overview")]))
      "1b4e28ba-2fa1-41d2-883f-0016d3cca427" true,
    .message (some (answerOf "1b4e28ba-2fa1-41d2-883f-0016d3cca427" status))]

instance (response : JsValue) : Decidable (Buildable response) :=
  inferInstanceAs (Decidable (_ ∧ ∀ body ∈ response.field "body", _))

instance (s : NodeRelay) : ∀ e, Decidable (s.Admits e)
  | .message message => inferInstanceAs (Decidable (∀ response ∈ message,
      ∀ id ∈ answeredId response, (∃ entry ∈ s.pending, entry.id = id) → Buildable response))
  | .accept => isTrue trivial
  | .close _ => isTrue trivial
  | .forward => isTrue trivial
  | .body .. => isTrue trivial
  | .timeout _ => isTrue trivial

theorem lifecycle_kept_answered : ∃ s, Reaches (step fun _ => "") Admits init s ∧
      s.replies.map Reply.cause = [.answered "1b4e28ba-2fa1-41d2-883f-0016d3cca427"] ∧
      s.Lifecycle fun _ => "" := by
  obtain ⟨s, hs, hanswered⟩ := exists_reaches_of_run (Q := fun s : NodeRelay =>
      s.replies.map Reply.cause = [.answered "1b4e28ba-2fa1-41d2-883f-0016d3cca427"])
    (step fun _ => "") Admits init (exchange 200) (by decide)
  exact ⟨s, hs, hanswered, lifecycle_kept hs⟩

/-- The node answers with `204`: the entry is gone and its request is never settled. -/
theorem request_lost :
    ∃ s, Reaches (step fun _ => "") always init s ∧ ¬ s.Lifecycle fun _ => "" := by
  obtain ⟨s, hs, hlost⟩ := exists_reaches_of_run
    (Q := fun s : NodeRelay => s.waiters = [] ∧ s.received = 1)
    (step fun _ => "") always init (exchange 204) (by decide)
  refine ⟨s, hs, fun h => ?_⟩
  have hlen := h.accounted.length_eq
  simp [hlost.1, hlost.2] at hlen

end Example

end AgentSight.Controller.NodeRelay
