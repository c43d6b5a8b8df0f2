import AgentSight.Collector.CodexRuntime
import AgentSight.Lib.Transition

/-!
# Which turn of a Codex session is active

Requests and responses of a Codex session are matched by id: in every run each request is in one
place, it waits, was answered, was withdrawn or failed with the transport. The active turn is
another matter. `read_codex` takes any turn that a message names for the active one, and any
`turn/completed` for the end of it, so it is right about the turn as long as the messages come in
order: no message names a turn after its completion or beside another that runs.
-/

namespace AgentSight.Collector

open Json (Value)
open Transition List Option

/-! ### Requests and their responses -/

/-- A response has no method. -/
theorem method_of_response [External] {value : Value} {response : CodexResponse}
    (h : codexResponse value = some response) : value.get "method" = none := by
  unfold codexResponse at h
  split at h
  · cases h
  · next hmethod => exact not_isSome_iff_eq_none.mp hmethod

namespace PendingResponses

/-- Every request registered is in one place, and was answered by a response of its id. -/
structure Correlated (responses : PendingResponses) : Prop where
  registered_nodup : responses.registered.Nodup
  settled : responses.registered.Perm
    (responses.pending ++ responses.answered.map Prod.fst ++ responses.withdrawn ++
      responses.failed)
  answered_by : ∀ entry ∈ responses.answered,
    (entry.2.get "id").bind (·.asU64) = some entry.1 ∧ entry.2.get "method" = none

variable {responses : PendingResponses} {id : ℕ}

namespace Correlated

/-- The places of a request, counted. -/
theorem count_eq (h : responses.Correlated) (id : ℕ) :
    responses.registered.count id = responses.pending.count id +
      (responses.answered.map Prod.fst).count id + responses.withdrawn.count id +
        responses.failed.count id := by
  have hcount := h.settled.count_eq id
  simpa only [count_append] using hcount

theorem register (h : responses.Correlated) (hfresh : id ∉ responses.registered) :
    (responses.register id).Correlated where
  registered_nodup := by
    refine nodup_append.mpr ⟨h.registered_nodup, nodup_singleton id, ?_⟩
    intro a ha b hb hab
    rw [mem_singleton] at hb
    exact hfresh (hb ▸ hab ▸ ha)
  settled := by
    refine perm_iff_count.mpr fun a => ?_
    have hcount := h.count_eq a
    simp only [PendingResponses.register, count_append]
    omega
  answered_by := h.answered_by

/-- A request that leaves the table. -/
theorem count_erase (hmem : id ∈ responses.pending) (a : ℕ) :
    responses.pending.count a = (responses.pending.erase id).count a + [id].count a := by
  rw [(perm_cons_erase hmem).count_eq, ← singleton_append, count_append]
  omega

theorem withdraw (h : responses.Correlated) (id : ℕ) : (responses.withdraw id).Correlated := by
  unfold PendingResponses.withdraw
  split
  · next hmem =>
    refine ⟨h.registered_nodup, perm_iff_count.mpr fun a => ?_, h.answered_by⟩
    have hcount := h.count_eq a
    have herase := count_erase hmem a
    simp only [count_append]
    omega
  · exact h

theorem fail (h : responses.Correlated) : responses.fail.Correlated where
  registered_nodup := h.registered_nodup
  settled := by
    refine perm_iff_count.mpr fun a => ?_
    have hcount := h.count_eq a
    simp only [PendingResponses.fail, count_append, count_nil]
    omega
  answered_by := h.answered_by

theorem complete [External] (h : responses.Correlated) (value : Value) :
    (responses.complete value).Correlated := by
  unfold PendingResponses.complete
  split
  · next id response hid hresponse =>
    split
    · next hmem =>
      refine ⟨h.registered_nodup, perm_iff_count.mpr fun a => ?_, ?_⟩
      · have hcount := h.count_eq a
        have herase := count_erase hmem a
        simp only [count_append, map_append, map_cons, map_nil]
        omega
      · intro entry hentry
        rcases mem_append.mp hentry with hentry | hentry
        · exact h.answered_by entry hentry
        · rw [mem_singleton.mp hentry]
          exact ⟨hid, method_of_response hresponse⟩
    · exact h
  · exact h

end Correlated

/-- A response with the id of a request takes it out of the table. -/
theorem complete_settles [External] {value : Value} {response : CodexResponse}
    (hnodup : responses.pending.Nodup) (hid : (value.get "id").bind (·.asU64) = some id)
    (hresponse : codexResponse value = some response) :
    id ∉ (responses.complete value).pending := by
  unfold PendingResponses.complete
  rw [hid, hresponse]
  dsimp only
  split
  · exact hnodup.not_mem_erase
  · next hmem => exact hmem

end PendingResponses

/-! ### The turns that the messages tell of -/

section Turns

variable (processed : List Value)

/-- The turn that a message starts. Requests of the app-server are rejected unread. -/
def startedTurn (value : Value) : Option String :=
  if (codexServerRequestRejection value).isSome then none
  else if (value.get "method").isNone || messageMethod value = some "turn/started" then
    messageTurn value
  else none

def completedTurn (value : Value) : Option String :=
  if (codexServerRequestRejection value).isSome then none
  else if messageMethod value = some "turn/completed" then messageTurn value
  else none

def Started (turn : String) : Prop := ∃ value ∈ processed, startedTurn value = some turn

def Completed (turn : String) : Prop := ∃ value ∈ processed, completedTurn value = some turn

/-- The turn has been started and its completion has not been received. -/
def Running (turn : String) : Prop := Started processed turn ∧ ¬ Completed processed turn

/-- The active turn is the one that runs. -/
def Tracks (activeTurn : Option String) : Prop :=
  ∀ turn, activeTurn = some turn ↔ Running processed turn

/-- A completion names the turn that runs. Any other message that names a turn starts it or finds
it running, not completed and not beside another. -/
def InOrder (value : Value) : Prop :=
  codexServerRequestRejection value = none →
    if messageMethod value = some "turn/completed" then
      ∀ turn, Running processed turn → messageTurn value = some turn
    else
      ∀ turn, messageTurn value = some turn →
        (startedTurn value = some turn ∨ Running processed turn) ∧ ¬ Completed processed turn ∧
          ∀ other, Running processed other → other = turn

variable {processed} {value : Value} {turn : String}

theorem started_append : Started (processed ++ [value]) turn ↔
      Started processed turn ∨ startedTurn value = some turn := by
  simp only [Started, mem_append, mem_singleton, or_and_right, exists_or, exists_eq_left]

theorem completed_append : Completed (processed ++ [value]) turn ↔
      Completed processed turn ∨ completedTurn value = some turn := by
  simp only [Completed, mem_append, mem_singleton, or_and_right, exists_or,
    exists_eq_left]

/-- A message that tells of no turn leaves the turns as they are. -/
theorem running_append_of_silent (hstarted : startedTurn value = none)
    (hcompleted : completedTurn value = none) :
    Running (processed ++ [value]) turn ↔ Running processed turn := by
  simp [Running, started_append, completed_append, hstarted, hcompleted]

theorem running_append_of_completed (hstarted : startedTurn value = none) :
    Running (processed ++ [value]) turn ↔
      Running processed turn ∧ completedTurn value ≠ some turn := by
  simp [Running, started_append, completed_append, hstarted, reduceCtorEq, or_false, not_or,
    and_assoc, ne_eq]

theorem running_append_of_started (hcompleted : completedTurn value = none) :
    Running (processed ++ [value]) turn ↔
      (Started processed turn ∨ startedTurn value = some turn) ∧ ¬ Completed processed turn := by
  simp [Running, started_append, completed_append, hcompleted, reduceCtorEq, or_false]

theorem tracks_none : Tracks [] none := by
  intro turn
  constructor
  · intro h
    cases h
  · rintro ⟨⟨value, hmem, -⟩, -⟩
    cases hmem

/-- A rejected request changes nothing. -/
theorem tracks_reject {activeTurn : Option String} (h : Tracks processed activeTurn)
    (hrejected : (codexServerRequestRejection value).isSome) :
    Tracks (processed ++ [value]) activeTurn := by
  intro turn
  have hstarted : startedTurn value = none := if_pos hrejected
  have hcompleted : completedTurn value = none := if_pos hrejected
  rw [running_append_of_silent hstarted hcompleted]
  exact h turn

/-- **The state follows a message rightly exactly if the message comes in order.** -/
theorem tracks_follow_iff {state : CodexState} (h : Tracks processed state.activeTurn)
    (hread : codexServerRequestRejection value = none) :
    Tracks (processed ++ [value]) (state.follow value).activeTurn ↔ InOrder processed value := by
  have hnotRejected : ¬ (codexServerRequestRejection value).isSome := by simp [hread]
  by_cases hmethod : messageMethod value = some "turn/completed"
  · -- The turn is cleared, whichever it is.
    have hactive : (state.follow value).activeTurn = none := by
      rw [CodexState.follow, if_pos hmethod]
    have hstarted : startedTurn value = none := by
      have hsome : (value.get "method").isNone = false := by
        obtain ⟨method, hget, -⟩ := bind_eq_some_iff.mp hmethod
        rw [hget]
        rfl
      rw [startedTurn, if_neg hnotRejected, hsome, hmethod]
      rfl
    have hcompleted : completedTurn value = messageTurn value := by
      rw [completedTurn, if_neg hnotRejected, if_pos hmethod]
    simp only [InOrder, hread, forall_const, if_pos hmethod, Tracks, hactive, reduceCtorEq,
      running_append_of_completed hstarted, hcompleted, false_iff, not_and, ne_eq, not_not]
  · have hcompleted : completedTurn value = none := by
      rw [completedTurn, if_neg hnotRejected, if_neg hmethod]
    have hstartedTurn {turn : String} (hstarted : startedTurn value = some turn) :
        messageTurn value = some turn := by
      rw [startedTurn, if_neg hnotRejected] at hstarted
      split at hstarted
      · exact hstarted
      · cases hstarted
    cases hturn : messageTurn value with
    | none =>
      have hstarted : startedTurn value = none :=
        eq_none_iff_forall_ne_some.mpr fun turn hstarted => by
          rw [hstartedTurn hstarted] at hturn
          cases hturn
      have hactive : (state.follow value).activeTurn = state.activeTurn := by
        rw [CodexState.follow, if_neg hmethod, hturn]
        dsimp only
        split <;> rfl
      have htracks : Tracks (processed ++ [value]) (state.follow value).activeTurn := by
        intro turn
        rw [running_append_of_silent hstarted hcompleted, hactive]
        exact h turn
      exact iff_of_true htracks fun _ => by simp [hmethod, hturn]
    | some turn =>
      have hactive : (state.follow value).activeTurn = some turn := by
        rw [CodexState.follow, if_neg hmethod, hturn]
      simp only [InOrder, hread, forall_const, if_neg hmethod, hturn, Tracks, hactive,
        some.injEq, forall_eq', running_append_of_started hcompleted]
      constructor
      · intro htracks
        obtain ⟨hstarted, hopen⟩ := (htracks turn).mp rfl
        refine ⟨?_, hopen, fun other hother => ?_⟩
        · rcases hstarted with hstarted | hstarted
          · exact .inr ⟨hstarted, hopen⟩
          · exact .inl hstarted
        · exact ((htracks other).mpr ⟨.inl hother.1, hother.2⟩).symm
      · rintro ⟨hstarted, hopen, honly⟩ other
        constructor
        · rintro rfl
          rcases hstarted with hstarted | hrunning
          · exact ⟨.inr hstarted, hopen⟩
          · exact ⟨.inl hrunning.1, hopen⟩
        · rintro ⟨hother | hother, hotherOpen⟩
          · exact (honly other ⟨hother, hotherOpen⟩).symm
          · exact some.inj (hturn.symm.trans (hstartedTurn hother))

end Turns

/-! ### Runs -/

namespace Codex

variable [External] {s s' : Codex} {e : CodexEvent}

/-- `send` has taken an id that is not in the table yet. -/
def Choosing (s : Codex) : Prop :=
  ∃ message activeTurn,
    s.sender = .chosen message activeTurn ∨ s.sender = .marked message activeTurn

/-- Every request registered has its place, and ids are not given twice. -/
structure Accounted (s : Codex) : Prop where
  correlated : s.responses.Correlated
  counted : ∀ id ∈ s.responses.registered, id ≤ s.nextId
  fresh : s.Choosing → ∀ id ∈ s.responses.registered, id < s.nextId
  failed : s.reader ≠ .closed → s.responses.failed = []

omit [External] in
theorem accounted_init (threadId : String) : (init threadId).Accounted where
  correlated := ⟨.nil, .nil, fun _ h => nomatch h⟩
  counted := fun _ h => nomatch h
  fresh := fun _ _ h => nomatch h
  failed := fun _ => rfl

omit [External] in
/-- A step of `send` that leaves the table and takes no id. -/
theorem Accounted.quiet {t : Codex} (hs : s.Accounted) (hresponses : t.responses = s.responses)
    (hreader : t.reader = s.reader) (hnextId : t.nextId = s.nextId)
    (hchoosing : t.Choosing → s.Choosing) : t.Accounted where
  correlated := hresponses ▸ hs.correlated
  counted := by
    rw [hresponses, hnextId]
    exact hs.counted
  fresh := by
    intro h
    rw [hresponses, hnextId]
    exact hs.fresh (hchoosing h)
  failed := by
    rw [hresponses, hreader]
    exact hs.failed

omit [External] in
theorem withdraw_fields (responses : PendingResponses) (id : ℕ) :
    (responses.withdraw id).registered = responses.registered ∧
      (responses.withdraw id).failed = responses.failed := by
  unfold PendingResponses.withdraw
  split <;> exact ⟨rfl, rfl⟩

theorem complete_fields (responses : PendingResponses) (value : Value) :
    (responses.complete value).registered = responses.registered ∧
      (responses.complete value).failed = responses.failed := by
  unfold PendingResponses.complete
  split
  · split <;> exact ⟨rfl, rfl⟩
  · exact ⟨rfl, rfl⟩

omit [External] in
/-- `send` takes its request out of the table. -/
theorem Accounted.withdraw {sender : CodexSender} (hs : s.Accounted) (id : ℕ)
    (hchoosing : ¬ { s with responses := s.responses.withdraw id, sender }.Choosing) :
    Accounted { s with responses := s.responses.withdraw id, sender } where
  correlated := hs.correlated.withdraw id
  counted := by
    rw [(withdraw_fields s.responses id).1]
    exact hs.counted
  fresh := fun h => absurd h hchoosing
  failed := by
    rw [(withdraw_fields s.responses id).2]
    exact hs.failed

theorem accounted_sendStep (hs : s.Accounted) (h : s.sendStep e = some s') : s'.Accounted := by
  have hwaits {t : Codex} (hsender : ∀ message activeTurn,
      t.sender ≠ .chosen message activeTurn ∧ t.sender ≠ .marked message activeTurn) :
      ¬ t.Choosing := by
    rintro ⟨message, activeTurn, hchosen | hmarked⟩
    · exact (hsender message activeTurn).1 hchosen
    · exact (hsender message activeTurn).2 hmarked
  cases e with
  | send message =>
    simp only [sendStep] at h
    split at h
    · next hidle =>
      split at h
      · cases h
        exact hs
      · cases h
        exact
          { correlated := hs.correlated
            counted := fun id hid => (hs.counted id hid).trans (Nat.le_succ _)
            fresh := fun _ id hid => Nat.lt_succ_of_le (hs.counted id hid)
            failed := hs.failed }
    · cases h
  | mark =>
    simp only [sendStep] at h
    split at h
    · next message activeTurn hchosen =>
      cases h
      exact hs.quiet rfl rfl rfl fun _ => ⟨message, activeTurn, .inl hchosen⟩
    · cases h
  | register =>
    simp only [sendStep] at h
    split at h
    · next message activeTurn hmarked =>
      cases h
      have hfresh := hs.fresh ⟨message, activeTurn, .inr hmarked⟩
      exact
        { correlated := hs.correlated.register fun hmem => Nat.lt_irrefl _ (hfresh _ hmem)
          counted := by
            intro id hid
            rcases mem_append.mp hid with hid | hid
            · exact hs.counted id hid
            · exact (mem_singleton.mp hid).le
          fresh := fun hchoosing => absurd hchoosing (hwaits fun _ _ => ⟨nofun, nofun⟩)
          failed := hs.failed }
    · cases h
  | write written =>
    simp only [sendStep] at h
    split at h
    · next id request hwriting =>
      split at h
      · cases h
        exact hs.quiet rfl rfl rfl fun hchoosing =>
          absurd hchoosing (hwaits fun _ _ => ⟨nofun, nofun⟩)
      · cases h
        exact hs.withdraw id (hwaits fun _ _ => ⟨nofun, nofun⟩)
    · cases h
  | wake =>
    simp only [sendStep] at h
    split at h
    · have hquiet sender hsender : Accounted { s with sender } :=
        hs.quiet rfl rfl rfl fun hchoosing => absurd hchoosing (hwaits hsender)
      split at h
      · cases h
        exact hquiet _ fun _ _ => ⟨nofun, nofun⟩
      · split at h
        · cases h
          exact hquiet _ fun _ _ => ⟨nofun, nofun⟩
        · cases h
          exact hquiet _ fun _ _ => ⟨nofun, nofun⟩
        · cases h
    · cases h
  | timeout =>
    simp only [sendStep] at h
    split at h
    · next id hwaiting =>
      cases h
      exact hs.withdraw id (hwaits fun _ _ => ⟨nofun, nofun⟩)
    · cases h
  | clear =>
    simp only [sendStep] at h
    split at h
    · cases h
      exact hs.quiet rfl rfl rfl fun hchoosing =>
        absurd hchoosing (hwaits fun _ _ => ⟨nofun, nofun⟩)
    · cases h
  | abandon =>
    simp only [sendStep] at h
    split at h
    · cases h
      exact hs.quiet rfl rfl rfl fun hchoosing =>
        absurd hchoosing (hwaits fun _ _ => ⟨nofun, nofun⟩)
    · cases h
      exact hs.quiet rfl rfl rfl fun hchoosing =>
        absurd hchoosing (hwaits fun _ _ => ⟨nofun, nofun⟩)
    · cases h
  | receive value writes => cases h
  | follow => cases h
  | oversized => cases h
  | close => cases h

theorem accounted_readStep (hs : s.Accounted) (h : s.readStep e = some s') : s'.Accounted := by
  cases e with
  | receive value writes =>
    simp only [readStep] at h
    split at h
    · next hreading =>
      have hfailed : s.responses.failed = [] := hs.failed (by rw [hreading]; exact nofun)
      split at h
      · split at h
        · cases h
          exact hs.quiet rfl rfl rfl id
        · cases h
          exact ⟨hs.correlated, hs.counted, hs.fresh, fun _ => hfailed⟩
      · cases h
        have hfields := complete_fields s.responses value
        exact
          { correlated := hs.correlated.complete value
            counted := by
              rw [hfields.1]
              exact hs.counted
            fresh := by
              rw [hfields.1]
              exact hs.fresh
            failed := fun _ => hfields.2.trans hfailed }
    · cases h
  | follow =>
    simp only [readStep] at h
    split at h
    · next value hfollowing =>
      cases h
      have hfailed : s.responses.failed = [] := hs.failed (by rw [hfollowing]; exact nofun)
      exact ⟨hs.correlated, hs.counted, hs.fresh, fun _ => hfailed⟩
    · cases h
  | oversized =>
    simp only [readStep] at h
    split at h
    · next hreading =>
      cases h
      have hfailed : s.responses.failed = [] := hs.failed (by rw [hreading]; exact nofun)
      exact ⟨hs.correlated, hs.counted, hs.fresh, fun _ => hfailed⟩
    · cases h
  | close =>
    have hclosed : Accounted { s with responses := s.responses.fail, reader := .closed } :=
      ⟨hs.correlated.fail, hs.counted, hs.fresh, fun hopen => absurd rfl hopen⟩
    simp only [readStep] at h
    split at h
    · cases h
      exact hclosed
    · cases h
      exact hclosed
    · cases h
  | send message => cases h
  | mark => cases h
  | register => cases h
  | write written => cases h
  | wake => cases h
  | timeout => cases h
  | clear => cases h
  | abandon => cases h

theorem accounted_of_reaches {ok : Codex → CodexEvent → Prop} {threadId : String}
    (h : Reaches step ok (init threadId) s) : s.Accounted := by
  refine h.invariant (accounted_init threadId) fun s e s' hs _ hstep => ?_
  rcases or_eq_some_iff.mp hstep with hstep | ⟨-, hstep⟩
  · exact accounted_sendStep hs hstep
  · exact accounted_readStep hs hstep

/-- What the reader knows of the turns. -/
def Knows (s : Codex) : Prop :=
  match s.reader with
  | .reading => Tracks s.processed s.state.activeTurn
  | .following value =>
    Tracks s.processed s.state.activeTurn ∧ codexServerRequestRejection value = none ∧
      InOrder s.processed value
  | _ => True

/-- The message that comes in is in order. -/
def Orderly (s : Codex) : CodexEvent → Prop
  | .receive value _ => InOrder s.processed value
  | _ => True

/-- `send` leaves to the reader which turn is active. -/
theorem sendStep_frame (h : s.sendStep e = some s') :
    s'.reader = s.reader ∧ s'.processed = s.processed ∧
      s'.state.activeTurn = s.state.activeTurn := by
  unfold sendStep at h
  repeat' split at h
  all_goals cases h
  all_goals exact ⟨rfl, rfl, rfl⟩

theorem knows_readStep (hs : s.Knows) (hok : s.Orderly e) (h : s.readStep e = some s') :
    s'.Knows := by
  cases e with
  | receive value writes =>
    simp only [readStep] at h
    split at h
    · next hreading =>
      have htracks : Tracks s.processed s.state.activeTurn := by
        simpa [Knows, hreading] using hs
      split at h
      · next rejection hrejection =>
        split at h
        · cases h
          simpa [Knows, hreading] using tracks_reject htracks (by simp [hrejection])
        · cases h
          exact trivial
      · next hread =>
        cases h
        exact ⟨htracks, hread, hok⟩
    · cases h
  | follow =>
    simp only [readStep] at h
    split at h
    · next value hfollowing =>
      cases h
      have hknown : Tracks s.processed s.state.activeTurn ∧
          codexServerRequestRejection value = none ∧ InOrder s.processed value := by
        simpa [Knows, hfollowing] using hs
      obtain ⟨htracks, hread, horder⟩ := hknown
      exact (tracks_follow_iff htracks hread).mpr horder
    · cases h
  | oversized =>
    simp only [readStep] at h
    split at h
    · cases h
      exact trivial
    · cases h
  | close =>
    simp only [readStep] at h
    split at h
    · cases h
      exact trivial
    · cases h
      exact trivial
    · cases h
  | send message => cases h
  | mark => cases h
  | register => cases h
  | write written => cases h
  | wake => cases h
  | timeout => cases h
  | clear => cases h
  | abandon => cases h

theorem knows_of_reaches {threadId : String} (h : Reaches step Orderly (init threadId) s) :
    s.Knows := by
  refine h.invariant tracks_none fun s e s' hs hok hstep => ?_
  rcases or_eq_some_iff.mp hstep with hstep | ⟨-, hstep⟩
  · obtain ⟨hreader, hprocessed, hactive⟩ := sendStep_frame hstep
    unfold Knows
    rw [hreader, hprocessed, hactive]
    exact hs
  · exact knows_readStep hs hok hstep

end Codex

/-- **Responses go to their requests in every run, and the active turn is right in every run whose
messages come in order.** A message that does not is followed wrongly. -/
theorem codex_correlated [External] (threadId : String) :
    (∀ s : Codex, Reaches Codex.step always (.init threadId) s →
      s.responses.Correlated ∧ (s.reader ≠ .closed → s.responses.failed = []) ∧
      ∀ value writes id response s', s.step (.receive value writes) = some s' →
        (value.get "id").bind (·.asU64) = some id → codexResponse value = some response →
        id ∉ s'.responses.pending) ∧
    (∀ s : Codex, Reaches Codex.step Codex.Orderly (.init threadId) s → s.reader = .reading →
      Tracks s.processed s.state.activeTurn) ∧
    ∀ (state : CodexState) (processed : List Value) (value : Value),
      Tracks processed state.activeTurn → codexServerRequestRejection value = none →
      (Tracks (processed ++ [value]) (state.follow value).activeTurn ↔
        InOrder processed value) := by
  refine ⟨fun s hs => ?_, fun s hs hreading => ?_, fun state processed value => tracks_follow_iff⟩
  · have haccounted := Codex.accounted_of_reaches hs
    refine ⟨haccounted.correlated, haccounted.failed, ?_⟩
    intro value writes id response s' hstep hid hresponse
    have hread : codexServerRequestRejection value = none := by
      have hmethod := method_of_response hresponse
      simp [codexServerRequestRejection, hmethod]
    have hreceived : s'.responses = s.responses.complete value := by
      change s.readStep (.receive value writes) = some s' at hstep
      simp only [Codex.readStep, hread] at hstep
      split at hstep
      · cases hstep
        rfl
      · cases hstep
    have hnodup : s.responses.pending.Nodup := by
      have hsettled := haccounted.correlated.settled.nodup_iff.mp
        haccounted.correlated.registered_nodup
      simp only [append_assoc] at hsettled
      exact (nodup_append.mp hsettled).1
    rw [hreceived]
    exact PendingResponses.complete_settles hnodup hid hresponse
  · have hknows := Codex.knows_of_reaches hs
    simpa [Codex.Knows, hreading] using hknows

section Example

local instance instPlainExternal : External where
  fromStr _ := none
  valueToString _ := ""
  toVec _ := ""
  sha256Hex _ := ""
  parseF64 _ := none

def turnStarted (turn : String) : Value :=
  .object [("method", .string "turn/started"),
    ("params", .object [("turn", .object [("id", .string turn)])])]

def turnCompleted (turn : String) : Value :=
  .object [("method", .string "turn/completed"),
    ("params", .object [("turn", .object [("id", .string turn)])])]

def turnResponse (id : ℕ) (turn : String) : Value :=
  .object [("id", .ofNat id), ("result", .object [("turn", .object [("id", .string turn)])])]

/-- The response to `turn/start` is read after the notifications of a turn that is over. -/
def lateResponse : List CodexEvent :=
  [.send "hello", .mark, .register, .write true, .receive (turnStarted "turn-1") true, .follow,
    .receive (turnCompleted "turn-1") true, .follow, .receive (turnResponse 3 "turn-1") true,
    .follow]

/-- The turn is active again after its completion. -/
theorem late_response_revives : ¬ ∀ s : Codex, Reaches Codex.step always (.init "thread-1") s →
    s.reader = .reading → Tracks s.processed s.state.activeTurn := by
  intro htracks
  obtain ⟨s, hreaches, hreading, hactive, hcompleted⟩ :=
    exists_reaches_of_run (Q := fun s : Codex => s.reader = .reading ∧
      s.state.activeTurn = some "turn-1" ∧ turnCompleted "turn-1" ∈ s.processed)
      Codex.step always (.init "thread-1") lateResponse (by decide +kernel)
  have hrunning := (htracks s hreaches hreading "turn-1").mp hactive
  exact hrunning.2 ⟨_, hcompleted, by decide⟩

end Example

end AgentSight.Collector
