import AgentSight.Collector.SessionRuntime
import AgentSight.Lib.Transition
import AgentSight.Session.Matching

/-!
# One runtime for each session

Whatever the order in which submissions run, the slot that a submission owns is the one that
the map has for its session, so clean-up takes away no slot that is in use, and one guard of a
slot is held at a time, so a session has one runtime. A process whose runtime was dropped is
not stopped; that a session has one live process depends on `session_is_running`.
-/

namespace AgentSight.Collector

open KeyedTable Transition List Option
open Runners (ProcInfo)
open Session (Clock SessionProcessInput)

variable {Age : Type} [Clock Age]

/-! ### What a look at the process table misses -/

namespace Machine

open Session (SessionProcessMatches cwdCandidates latestStartMs matchSessions mayLink
  processStartMs recentCwdDistanceMs search sessionIsFreshEnoughForProcess turn)

variable {machine : Machine Age} {session : SessionProcessInput}

theorem search_eq_none {r : Session.Refresh Age} {used : List ℕ}
    {processes : List (Session.LiveProcessCandidate Age)} (bindings : Session.Bindings)
    (h : ∀ process ∈ processes, mayLink r used session process = false) :
    search r used session processes bindings = (none, bindings) := by
  induction processes with
  | nil => rfl
  | cons process processes ih =>
    rw [search, h process mem_cons_self, if_neg Bool.false_ne_true]
    exact ih fun process' hprocess' => h process' (mem_cons_of_mem _ hprocess')

/-- **A provider that is started long after the last record** of its session is not linked to it,
whatever it has open: the look at the process table does not find the session running. -/
theorem sessionIsRunning_of_late (h : ∀ info ∈ machine.sample.procs,
    latestStartMs session < machine.nowMs - Clock.millis (machine.processAgeS info)) :
    machine.sessionIsRunning session = false := by
  have hlate : ∀ process ∈ (machine.refresh session).processes, ∃ start,
      processStartMs process machine.nowMs = some start ∧ latestStartMs session < start := by
    intro process hprocess
    obtain ⟨rootPid, -, hcandidate⟩ := mem_filterMap.mp hprocess
    obtain ⟨root, hroot, hlabel⟩ := bind_eq_some_iff.mp hcandidate
    obtain ⟨-, heq⟩ := ite_none_right_eq_some.mp hlabel
    obtain rfl := some.inj heq
    exact ⟨_, rfl, h root (Runners.ProcSnapshot.mem_of_get hroot)⟩
  have hmay used : ∀ process ∈ (machine.refresh session).processes,
      mayLink (machine.refresh session) used session process = false := by
    intro process hprocess
    obtain ⟨start, hstart, hlt⟩ := hlate process hprocess
    have hstale : sessionIsFreshEnoughForProcess session process machine.nowMs = false := by
      rw [sessionIsFreshEnoughForProcess, hstart]
      exact decide_eq_false (Nat.not_le_of_lt hlt)
    rw [mayLink, refresh, hstale, Bool.and_false]
  have hdistance : ∀ process ∈ (machine.refresh session).processes,
      recentCwdDistanceMs (machine.refresh session) session process = none := by
    intro process hprocess
    obtain ⟨start, hstart, hlt⟩ := hlate process hprocess
    have hnot : ¬start ≤ latestStartMs session := Nat.not_le_of_lt hlt
    have hrefresh : processStartMs process (machine.refresh session).nowMs = some start := hstart
    simp [recentCwdDistanceMs, hrefresh, hnot]
  have hcandidates pass : cwdCandidates (machine.refresh session) pass = [] := by
    refine flatMap_eq_nil_iff.mpr fun entry hentry => ?_
    obtain rfl : entry.1 = session := mem_singleton.mp (fst_mem_of_mem_zipIdx hentry)
    dsimp only
    split_ifs
    · rfl
    · refine filterMap_eq_nil_iff.mpr fun candidate hcandidate => ?_
      rw [hdistance _ (fst_mem_of_mem_zipIdx hcandidate)]
      simp
  have hsearch used bindings := search_eq_none bindings (hmay used)
  have hsessions : (machine.refresh session).sessions = [session] := rfl
  rw [sessionIsRunning, matchSessions]
  simp [hcandidates, turn, hsearch, hsessions, SessionProcessMatches.empty]

end Machine

namespace Runtimes

variable {s s' : Runtimes}

/-- The session that a process was started for. -/
def sessionOf (s : Runtimes) (process : ℕ) : Option String :=
  (s.processes[process]?).map (·.sessionId)

/-- A runtime of the process exists: it is stored in a slot, or is being started. -/
def Attached (s : Runtimes) (process : ℕ) : Prop :=
  (∃ slot : ℕ, s.slots[slot]? = some (some process)) ∨
    ∃ sub ∈ s.submissions, ∃ slot : ℕ, sub.stage = .started slot process

/-- What holds in every state. -/
structure Orderly (s : Runtimes) : Prop where
  oneRuntime : ∀ (sessionId : String) (process process' : ℕ), s.sessionOf process = some sessionId →
    s.sessionOf process' = some sessionId → s.Attached process → s.Attached process' →
    process = process'
  reaches : ∀ sub ∈ s.submissions, ∀ slot process : ℕ, sub.stage = .sending slot process →
    s.slots[slot]? = some (some process) ∧ s.sessionOf process = some sub.sessionId
  used : ∀ sub ∈ s.submissions, ∀ slot, sub.stage.slot = some slot →
    find Prod.fst s.map sub.sessionId = some (sub.sessionId, slot)

/-- Of each session at most one process is alive. -/
def OneLive (s : Runtimes) : Prop :=
  ∀ (process process' : ℕ) (sessionId : String), s.processes[process]? = some ⟨sessionId, true⟩ →
    s.processes[process']? = some ⟨sessionId, true⟩ → process = process'

/-- A submission that found no runtime in its slot asks whether the session is running. -/
def Asks (s : Runtimes) (sub : Submission) : Prop :=
  match sub.stage with
  | .locked slot => s.slots[slot]? = some none
  | _ => False

/-- When a submission asks while a process of its session is alive, the table that it reads
shows the session running. -/
def Detects (s : Runtimes) : Event Age → Prop
  | .advance i env => ∀ sub ∈ s.submissions[i]?, s.Asks sub →
    ⟨sub.sessionId, true⟩ ∈ s.processes → env.machine.sessionIsRunning sub.session = true
  | _ => True

instance (s : Runtimes) (sub : Submission) : Decidable (s.Asks sub) :=
  match h : sub.stage with
  | .locked slot =>
    decidable_of_iff (s.slots[slot]? = some none) (by unfold Asks; rw [h])
  | .arriving | .cloned _ | .sending _ _ | .starting _ | .started _ _ | .cleaning _ =>
    .isFalse (by unfold Asks; rw [h]; exact id)

instance (s : Runtimes) (e : Event Age) : Decidable (s.Detects e) :=
  match e with
  | .advance i env => inferInstanceAs (Decidable (∀ sub ∈ s.submissions[i]?, s.Asks sub →
      ⟨sub.sessionId, true⟩ ∈ s.processes → env.machine.sessionIsRunning sub.session = true))
  | .submit _ | .cancel _ | .exit _ => inferInstanceAs (Decidable True)

/-! ### The invariant -/

/-- What the stage of a submission says about the slots and the processes. -/
def StageOk (s : Runtimes) (sub : Submission) : Prop :=
  match sub.stage with
  | .sending slot process => s.slots[slot]? = some (some process)
  | .starting slot => s.slots[slot]? = some none
  | .started slot process =>
    s.slots[slot]? = some none ∧ s.sessionOf process = some sub.sessionId
  | _ => True

structure Sound (s : Runtimes) : Prop where
  sessions : Unique Prod.fst s.map
  entries : Unique Prod.snd s.map
  allocated : ∀ entry ∈ s.map, entry.2 < s.slots.length
  used : ∀ sub ∈ s.submissions, ∀ slot, sub.stage.slot = some slot →
    find Prod.fst s.map sub.sessionId = some (sub.sessionId, slot)
  exclusive : ∀ (i j : ℕ) (a b : Submission) (slot : ℕ), s.submissions[i]? = some a →
    s.submissions[j]? = some b → a.stage.lock = some slot → b.stage.lock = some slot → i = j
  stored : ∀ slot process : ℕ, s.slots[slot]? = some (some process) →
    ∃ sessionId, (sessionId, slot) ∈ s.map ∧ s.sessionOf process = some sessionId
  stages : ∀ sub ∈ s.submissions, s.StageOk sub

variable {slot process : ℕ} {stage : Stage}

theorem slot_of_lock (h : stage.lock = some slot) : stage.slot = some slot := by
  cases stage <;> first | exact h | cases h

theorem sound_init : init.Sound where
  sessions := unique_nil
  entries := unique_nil
  allocated _ h := (not_mem_nil h).elim
  used _ h := (not_mem_nil h).elim
  exclusive i j a b slot h := by simp [init] at h
  stored slot process h := by simp [init] at h
  stages _ h := (not_mem_nil h).elim

/-! ### Moves of a submission -/

section Moves

variable {i : ℕ} {sub : Submission} {stage : Stage}

/-- Nobody but the submission with the number holds the guard. -/
def OnlyHolder (s : Runtimes) (i slot : ℕ) : Prop :=
  ∀ j b, s.submissions[j]? = some b → b.stage.lock = some slot → j = i

theorem Sound.onlyHolder (h : s.Sound) (hi : s.submissions[i]? = some sub)
    (hlock : sub.stage.lock = some slot) : s.OnlyHolder i slot :=
  fun j b hj hb => h.exclusive j i b sub slot hj hi hb hlock

/-- A submission goes to a stage for which it has what that says. -/
theorem Sound.goto (h : s.Sound) (hslot : ∀ slot, stage.slot = some slot →
      find Prod.fst s.map sub.sessionId = some (sub.sessionId, slot))
    (hlock : ∀ slot, stage.lock = some slot → s.OnlyHolder i slot)
    (hstage : s.StageOk { sub with stage }) : (s.goto i sub stage).Sound where
  sessions := h.sessions
  entries := h.entries
  allocated := h.allocated
  used b hb slot hused := by
    obtain hb | rfl := mem_or_eq_of_mem_set hb
    · exact h.used b hb slot hused
    · exact hslot slot hused
  exclusive j k a b slot hj hk ha hb := by
    simp only [Runtimes.goto, getElem?_set] at hj hk
    split at hj <;> split at hk
    · next hji hki => exact hji.symm.trans hki
    · next hji _ =>
      split at hj
      · cases hj
        exact hji.symm.trans (hlock slot ha k b hk hb).symm
      · cases hj
    · next hki =>
      split at hk
      · cases hk
        exact (hlock slot hb j a hj ha).trans hki
      · cases hk
    · exact h.exclusive j k a b slot hj hk ha hb
  stored := h.stored
  stages b hb := by
    obtain hb | rfl := mem_or_eq_of_mem_set hb
    · exact h.stages b hb
    · exact hstage

theorem Sound.finish (h : s.Sound) (i : ℕ) : (s.finish i).Sound where
  sessions := h.sessions
  entries := h.entries
  allocated := h.allocated
  used b hb := h.used b (mem_of_mem_eraseIdx hb)
  exclusive j k a b slot hj hk ha hb := by
    simp only [Runtimes.finish, getElem?_eraseIdx] at hj hk
    split at hj <;> split at hk <;>
      have := h.exclusive _ _ a b slot hj hk ha hb <;> omega
  stored := h.stored
  stages b hb := h.stages b (mem_of_mem_eraseIdx hb)

/-- The guard's owner has gone on without it or is gone: nobody holds it. -/
def Unheld (s : Runtimes) (slot : ℕ) : Prop :=
  ∀ b ∈ s.submissions, b.stage.lock ≠ some slot

theorem unheld_goto (honly : s.OnlyHolder i slot) (hstage : stage.lock ≠ some slot) :
    (s.goto i sub stage).Unheld slot := by
  intro b hb hlock
  obtain ⟨j, hj⟩ := mem_iff_getElem?.mp hb
  simp only [Runtimes.goto, getElem?_set] at hj
  split at hj
  · split at hj
    · cases hj
      exact hstage hlock
    · cases hj
  · next hne => exact hne (honly j b hj hlock).symm

theorem unheld_finish (honly : s.OnlyHolder i slot) : (s.finish i).Unheld slot := by
  intro b hb hlock
  obtain ⟨j, hne, hj⟩ := mem_eraseIdx_iff_getElem?.mp hb
  exact hne (honly j b hj hlock)

/-- A runtime of the slot's session is put in, or the slot is emptied, while nobody holds it. -/
theorem Sound.store (h : s.Sound) {runtime : Option ℕ} (hunheld : s.Unheld slot)
    (hruntime : ∀ process ∈ runtime, ∃ sessionId, (sessionId, slot) ∈ s.map ∧
      s.sessionOf process = some sessionId) : (s.store slot runtime).Sound where
  sessions := h.sessions
  entries := h.entries
  allocated entry hentry := by
    simpa [Runtimes.store] using h.allocated entry hentry
  used := h.used
  exclusive := h.exclusive
  stored slot' process hstored := by
    simp only [Runtimes.store, getElem?_set] at hstored
    split at hstored
    · next heq =>
      split at hstored
      · obtain rfl := some.inj hstored
        exact heq ▸ hruntime process rfl
      · cases hstored
    · exact h.stored slot' process hstored
  stages b hb := by
    have hstage := h.stages b hb
    have hfree := hunheld b hb
    have hother : ∀ slot', b.stage.lock = some slot' →
        (s.slots.set slot runtime)[slot']? = s.slots[slot']? := by
      intro slot' hlock
      refine getElem?_set_ne ?_
      rintro rfl
      exact hfree hlock
    unfold StageOk at hstage ⊢
    cases hb' : b.stage with
    | sending slot' process | starting slot' =>
      simp only [hb'] at hstage hother ⊢
      exact (hother slot' rfl).trans hstage
    | started slot' process =>
      simp only [hb'] at hstage hother ⊢
      exact ⟨(hother slot' rfl).trans hstage.1, hstage.2⟩
    | _ => trivial

end Moves

/-! ### Steps -/

section Steps

variable {i : ℕ} {sub : Submission}

/-- Slots that stay what they were and processes that keep their sessions. -/
theorem StageOk.mono {sub : Submission} (h : s.StageOk sub)
    (hslots : ∀ (slot : ℕ) (runtime : Option ℕ), s.slots[slot]? = some runtime →
      s'.slots[slot]? = some runtime)
    (hprocesses : ∀ (process : ℕ) (sessionId : String), s.sessionOf process = some sessionId →
      s'.sessionOf process = some sessionId) : s'.StageOk sub := by
  unfold StageOk at h ⊢
  cases hstage : sub.stage with
  | sending slot process | starting slot =>
    simp only [hstage] at h ⊢
    exact hslots _ _ h
  | started slot process =>
    simp only [hstage] at h ⊢
    exact ⟨hslots _ _ h.1, hprocesses _ _ h.2⟩
  | _ => trivial

variable {sessionId : String}

/-- A new slot for a session that has none. -/
theorem Sound.newSlot (h : s.Sound) (hnone : find Prod.fst s.map sessionId = none) :
    Sound { s with map := s.map ++ [(sessionId, s.slots.length)], slots := s.slots ++ [none] } where
  sessions := unique_concat h.sessions hnone
  entries := by
    refine unique_concat h.entries ?_
    cases hfind : find Prod.snd s.map s.slots.length with
    | none => rfl
    | some entry =>
      obtain ⟨hentry, hslot⟩ := mem_of_find hfind
      exact absurd hslot (Nat.ne_of_lt (h.allocated entry hentry))
  allocated entry hentry := by
    rw [length_append]
    obtain hentry | hentry := mem_append.mp hentry
    · exact Nat.lt_succ_of_lt (h.allocated entry hentry)
    · rw [mem_singleton.mp hentry]
      exact Nat.lt_succ_self _
  used b hb slot hslot := by
    rw [find_concat, h.used b hb slot hslot]
    rfl
  exclusive := h.exclusive
  stored slot process hstored := by
    have hold : s.slots[slot]? = some (some process) := by
      rw [getElem?_append] at hstored
      split at hstored
      · exact hstored
      · rw [getElem?_singleton] at hstored
        split at hstored <;> cases hstored
    obtain ⟨id, hentry, hsession⟩ := h.stored slot process hold
    exact ⟨id, mem_append_left _ hentry, hsession⟩
  stages b hb := (h.stages b hb).mono (fun slot runtime hslot => (getElem?_append_left
      (List.getElem?_eq_some_iff.mp hslot).1).trans hslot) fun _ _ hprocess => hprocess

theorem Sound.acquire (h : s.Sound) : (s.acquire i sub).Sound := by
  unfold Runtimes.acquire
  cases hfind : find Prod.fst s.map sub.sessionId with
  | some entry =>
    have hsame : entry = (sub.sessionId, entry.2) := Prod.ext (mem_of_find hfind).2 rfl
    refine h.goto (fun slot hslot => ?_) (fun slot hlock => by cases hlock) trivial
    obtain rfl := some.inj hslot
    rw [hfind, ← hsame]
  | none =>
    refine (h.newSlot hfind).goto (fun slot hslot => ?_) (fun slot hlock => by cases hlock) trivial
    obtain rfl := some.inj hslot
    rw [find_concat, hfind]
    simp

theorem sessionOf_append (process : ℕ) (p : Process) (h : s.sessionOf process = some sessionId) :
    sessionOf { s with processes := s.processes ++ [p] } process = some sessionId := by
  obtain ⟨old, hold, rfl⟩ := map_eq_some_iff.mp h
  refine map_eq_some_iff.mpr ⟨old, ?_, rfl⟩
  exact (List.getElem?_append_left (List.getElem?_eq_some_iff.mp hold).1).trans hold

theorem Sound.newProcess (h : s.Sound) (p : Process) :
    Sound { s with processes := s.processes ++ [p] } where
  sessions := h.sessions
  entries := h.entries
  allocated := h.allocated
  used := h.used
  exclusive := h.exclusive
  stored slot process hstored := by
    obtain ⟨id, hentry, hsession⟩ := h.stored slot process hstored
    exact ⟨id, hentry, sessionOf_append process p hsession⟩
  stages b hb := (h.stages b hb).mono (fun _ _ hslot => hslot)
    fun process _ hprocess => sessionOf_append process p hprocess

/-- The entry of an empty slot that nobody owns is removed. -/
theorem Sound.removeEntry (h : s.Sound)
    (hentry : (sessionId, slot) ∈ s.map) (hempty : s.slots[slot]? = some none)
    (hfree : ∀ b ∈ s.submissions, b.stage.slot ≠ some slot) :
    Sound { s with map := delete Prod.fst s.map sessionId } where
  sessions := unique_delete h.sessions
  entries := unique_filter h.entries _
  allocated entry hmem := h.allocated entry (mem_delete.mp hmem).1
  used b hb slot' hslot := by
    have hused := h.used b hb slot' hslot
    have hne : b.sessionId ≠ sessionId := by
      rintro rfl
      have heq := h.sessions _ (mem_of_find hused).1 _ hentry rfl
      exact hfree b hb ((Prod.mk.inj heq).2 ▸ hslot)
    rw [find_delete, if_neg hne]
    exact hused
  exclusive := h.exclusive
  stored slot' process hstored := by
    obtain ⟨id, hmem, hsession⟩ := h.stored slot' process hstored
    refine ⟨id, mem_delete.mpr ⟨hmem, ?_⟩, hsession⟩
    rintro rfl
    have heq := h.sessions _ hmem _ hentry rfl
    rw [(Prod.mk.inj heq).2, hempty] at hstored
    cases hstored
  stages := h.stages

/-- If one item of a list has a property, erasing an item that has it leaves none. -/
theorem forall_eraseIdx_of_countP {α : Type*} {p : α → Bool} {l : List α} {i : ℕ} {a : α}
    (hcount : l.countP p = 1) (hi : l[i]? = some a) (ha : p a = true) :
    ∀ b ∈ l.eraseIdx i, p b = false := by
  have hsplit : l.countP p = (l.eraseIdx i).countP p + 1 := by
    obtain ⟨hlt, rfl⟩ := List.getElem?_eq_some_iff.mp hi
    conv_lhs => rw [← take_append_drop i l, drop_eq_getElem_cons hlt]
    rw [countP_append, countP_cons_of_pos ha, eraseIdx_eq_take_drop_succ,
      countP_append, Nat.add_assoc]
  have hzero : (l.eraseIdx i).countP p = 0 := by omega
  simpa using hzero

section

variable (h : s.Sound)
include h

section

variable (hi : s.submissions[i]? = some sub)
include hi

/-- Clean-up: the entry goes only when the submission is the slot's only owner. -/
theorem Sound.clean
    (hslot : sub.stage.slot = some slot) :
    ((s.removeEmptyRuntimeSlot sub.sessionId slot).finish i).Sound := by
  unfold removeEmptyRuntimeSlot
  split
  · next hremoves =>
    simp only [Bool.and_eq_true, decide_eq_true_eq] at hremoves
    obtain ⟨⟨-, hcount⟩, -, hempty⟩ := hremoves
    have hentry := (mem_of_find (h.used sub (mem_of_getElem? hi) slot hslot)).1
    have hmapped : 0 < s.map.countP fun entry => entry.2 = slot :=
      countP_pos_iff.mpr ⟨_, hentry, decide_eq_true rfl⟩
    have howns : 0 < s.submissions.countP fun sub => sub.stage.slot = some slot :=
      countP_pos_iff.mpr ⟨sub, mem_of_getElem? hi, decide_eq_true hslot⟩
    have hone : s.submissions.countP (fun sub => sub.stage.slot = some slot) = 1 := by
      unfold strongCount at hcount
      omega
    have hfree := forall_eraseIdx_of_countP hone hi (decide_eq_true hslot)
    exact (h.finish i).removeEntry hentry hempty fun b hb => of_decide_eq_false (hfree b hb)
  · exact h.finish i

/-- A submission that holds the guard goes on with it or without it. -/
theorem Sound.goOn
    (hlock : sub.stage.lock = some slot) (hslot : stage.slot = some slot)
    (hstage : s.StageOk { sub with stage }) : (s.goto i sub stage).Sound := by
  have hused := h.used sub (mem_of_getElem? hi) slot (slot_of_lock hlock)
  refine h.goto (fun slot' hslot' => ?_) (fun slot' hlock' => ?_) hstage
  · obtain rfl := some.inj (hslot.symm.trans hslot')
    exact hused
  · obtain rfl := some.inj (hslot.symm.trans (slot_of_lock hlock'))
    exact h.onlyHolder hi hlock

/-- The runtime that was sent a message in vain is dropped. -/
theorem Sound.fail
    (hlock : sub.stage.lock = some slot) :
    ((s.goto i sub (.cleaning slot)).store slot none).Sound := by
  have hgone : (s.goto i sub (.cleaning slot)).Sound := h.goOn hi hlock rfl trivial
  refine hgone.store (unheld_goto (h.onlyHolder hi hlock) (by simp [Stage.lock])) ?_
  intro process hnone
  cases hnone

/-- A runtime that accepted its first message is stored. -/
theorem Sound.install
    (hstage : sub.stage = .started slot process) :
    ((s.finish i).store slot (some process)).Sound := by
  have hmem := mem_of_getElem? hi
  have hlock : sub.stage.lock = some slot := by rw [hstage]; rfl
  refine (h.finish i).store (unheld_finish (h.onlyHolder hi hlock)) fun process' heq => ?_
  obtain rfl := some.inj heq
  have hok := h.stages sub hmem
  simp only [StageOk, hstage] at hok
  exact ⟨sub.sessionId, (mem_of_find (h.used sub hmem slot (slot_of_lock hlock))).1, hok.2⟩

/-- A process for the submission's session is started. -/
theorem Sound.spawn
    (hstage : sub.stage = .starting slot) : (s.spawn i sub slot).Sound := by
  have hok := h.stages sub (mem_of_getElem? hi)
  simp only [StageOk, hstage] at hok
  refine (h.newProcess ⟨sub.sessionId, true⟩).goOn hi (by rw [hstage]; rfl) rfl ⟨hok, ?_⟩
  simp [sessionOf]

/-- The slot of a guard is allocated, so when no runtime is in it, it is empty. -/
theorem Sound.slotEmpty
    (hlock : sub.stage.lock = some slot)
    (hempty : ∀ process : ℕ, s.slots[slot]? ≠ some (some process)) :
    s.slots[slot]? = some none := by
  have hused := h.used sub (mem_of_getElem? hi) slot (slot_of_lock hlock)
  have hlt := h.allocated _ (mem_of_find hused).1
  cases hslot : s.slots[slot]? with
  | none => exact absurd (getElem?_eq_none_iff.mp hslot) (Nat.not_le_of_lt hlt)
  | some runtime =>
    cases runtime with
    | none => rfl
    | some process => exact absurd hslot (hempty process)

theorem Sound.advance
    (env : Surroundings Age) : (s.advance i sub env).Sound := by
  unfold Runtimes.advance
  cases hsub : sub.stage with
  | arriving => exact h.acquire
  | cloned slot =>
    dsimp only
    split
    · exact h.finish i
    · next hfree =>
      have hused := h.used sub (mem_of_getElem? hi) slot (by rw [hsub]; rfl)
      refine h.goto (fun slot' hslot => ?_) (fun slot' hlock j b hj hb => ?_) trivial
      · obtain rfl := some.inj hslot
        exact hused
      · obtain rfl := some.inj hlock
        refine absurd ?_ hfree
        exact any_eq_true.mpr ⟨b, mem_of_getElem? hj, decide_eq_true hb⟩
  | locked slot =>
    have hlock : sub.stage.lock = some slot := by rw [hsub]; rfl
    dsimp only
    split
    · next process hprocess => exact h.goOn hi hlock rfl hprocess
    · next hempty =>
      split
      · exact h.goOn hi hlock rfl trivial
      · exact h.goOn hi hlock rfl (h.slotEmpty hi hlock hempty)
  | sending slot process =>
    have hlock : sub.stage.lock = some slot := by rw [hsub]; rfl
    dsimp only
    split
    · exact h.finish i
    · exact h.finish i
    · exact h.fail hi hlock
  | starting slot =>
    have hlock : sub.stage.lock = some slot := by rw [hsub]; rfl
    dsimp only
    split
    · exact h.goOn hi hlock rfl trivial
    · exact h.spawn hi hsub
  | started slot process =>
    have hlock : sub.stage.lock = some slot := by rw [hsub]; rfl
    dsimp only
    split
    · exact h.goOn hi hlock rfl trivial
    · split
      · exact h.goOn hi hlock rfl trivial
      · exact h.install hi hsub
  | cleaning slot => exact h.clean hi (by rw [hsub]; rfl)

end

end

theorem sessionOf_exit {p : Process} (hp : s.processes[process]? = some p) (other : ℕ) :
    sessionOf { s with processes := s.processes.set process { p with alive := false } } other =
      s.sessionOf other := by
  simp only [sessionOf, getElem?_set]
  split
  · next heq =>
    subst heq
    split
    · rw [hp]
      rfl
    · next hlt => exact absurd (List.getElem?_eq_some_iff.mp hp).1 hlt
  · rfl

theorem Sound.exit (h : s.Sound) {p : Process} (hp : s.processes[process]? = some p) :
    Sound { s with processes := s.processes.set process { p with alive := false } } where
  sessions := h.sessions
  entries := h.entries
  allocated := h.allocated
  used := h.used
  exclusive := h.exclusive
  stored slot other hstored := by
    obtain ⟨id, hentry, hsession⟩ := h.stored slot other hstored
    exact ⟨id, hentry, (sessionOf_exit hp other).trans hsession⟩
  stages b hb := (h.stages b hb).mono (fun _ _ hslot => hslot)
    fun other _ hsession => (sessionOf_exit hp other).trans hsession

theorem Sound.submit (h : s.Sound) (session : SessionProcessInput) :
    Sound { s with submissions := s.submissions ++ [⟨session, .arriving⟩] } where
  sessions := h.sessions
  entries := h.entries
  allocated := h.allocated
  used b hb slot hslot := by
    obtain hb | hb := mem_append.mp hb
    · exact h.used b hb slot hslot
    · rw [mem_singleton.mp hb] at hslot
      cases hslot
  exclusive j k a b slot hj hk ha hb := by
    have hold : ∀ {j : ℕ} {a : Submission},
        (s.submissions ++ [⟨session, .arriving⟩])[j]? = some a →
        a.stage.lock = some slot → s.submissions[j]? = some a := by
      intro j a hj ha
      rw [getElem?_append] at hj
      split at hj
      · exact hj
      · rw [getElem?_singleton] at hj
        split at hj
        · cases hj
          cases ha
        · cases hj
    exact h.exclusive j k a b slot (hold hj ha) (hold hk hb) ha hb
  stored := h.stored
  stages b hb := by
    obtain hb | hb := mem_append.mp hb
    · exact h.stages b hb
    · rw [mem_singleton.mp hb]
      trivial

theorem Sound.step (h : s.Sound) {e : Event Age} (hs : s.step e = some s') : s'.Sound := by
  cases e with
  | submit session =>
    obtain rfl := some.inj hs
    exact h.submit session
  | advance i env =>
    obtain ⟨sub, hi, rfl⟩ := map_eq_some_iff.mp hs
    exact h.advance hi env
  | cancel i =>
    simp only [Runtimes.step] at hs
    split at hs
    · obtain rfl := some.inj hs
      exact h.finish i
    · cases hs
  | exit process =>
    obtain ⟨p, hp, rfl⟩ := map_eq_some_iff.mp hs
    exact h.exit hp

/-- A runtime is in the slot of its session, or is being started by the one submission that
holds the guard of the empty slot. -/
theorem Sound.attached (h : s.Sound)
    (hof : s.sessionOf process = some sessionId) (hattached : s.Attached process) :
    ∃ slot, (sessionId, slot) ∈ s.map ∧ (s.slots[slot]? = some (some process) ∨
      s.slots[slot]? = some none ∧ ∃ (i : ℕ) (sub : Submission),
        s.submissions[i]? = some sub ∧ sub.stage = .started slot process) := by
  obtain ⟨slot, hstored⟩ | ⟨sub, hsub, slot, hstage⟩ := hattached
  · obtain ⟨id, hentry, hsession⟩ := h.stored slot process hstored
    obtain rfl := some.inj (hsession.symm.trans hof)
    exact ⟨slot, hentry, .inl hstored⟩
  · have hok := h.stages sub hsub
    simp only [StageOk, hstage] at hok
    obtain rfl := some.inj (hok.2.symm.trans hof)
    obtain ⟨i, hi⟩ := mem_iff_getElem?.mp hsub
    refine ⟨slot, (mem_of_find (h.used sub hsub slot (by rw [hstage]; rfl))).1, .inr ?_⟩
    exact ⟨hok.1, i, sub, hi, hstage⟩

/-- A submission in flight uses the slot of its session, and its session has no other. -/
theorem Sound.orderly (h : s.Sound) : s.Orderly where
  oneRuntime sessionId process process' hof hof' hattached hattached' := by
    obtain ⟨slot, hentry, hwhere⟩ := h.attached hof hattached
    obtain ⟨slot', hentry', hwhere'⟩ := h.attached hof' hattached'
    obtain rfl := (Prod.mk.inj (h.sessions _ hentry _ hentry' rfl)).2
    obtain hstored | ⟨hempty, i, sub, hi, hstage⟩ := hwhere <;>
      obtain hstored' | ⟨hempty', j, sub', hj, hstage'⟩ := hwhere'
    · exact some.inj (some.inj (hstored.symm.trans hstored'))
    · cases hstored.symm.trans hempty'
    · cases hstored'.symm.trans hempty
    · obtain rfl := h.exclusive i j sub sub' slot hi hj (by rw [hstage]; rfl) (by rw [hstage']; rfl)
      obtain rfl := some.inj (hi.symm.trans hj)
      exact (Stage.started.inj (hstage.symm.trans hstage')).2
  reaches sub hsub slot process hstage := by
    have hok := h.stages sub hsub
    simp only [StageOk, hstage] at hok
    refine ⟨hok, ?_⟩
    obtain ⟨id, hentry, hsession⟩ := h.stored slot process hok
    have hused := (mem_of_find (h.used sub hsub slot (by rw [hstage]; rfl))).1
    rw [hsession, (Prod.mk.inj (h.entries _ hentry _ hused rfl)).1]
  used := h.used

end Steps

/-! ### Live processes -/

/-- No process of the session is alive. -/
def NoneLive (s : Runtimes) (sessionId : String) : Prop := ⟨sessionId, true⟩ ∉ s.processes

structure Watched (s : Runtimes) : Prop where
  oneLive : s.OneLive
  starting : ∀ sub ∈ s.submissions, ∀ slot, sub.stage = .starting slot → s.NoneLive sub.sessionId

section Live

variable {i : ℕ} {sub : Submission}

/-- A step that starts no process and brings no submission to `starting`. -/
theorem Watched.of_processes (h : s.Watched) (hprocesses : s'.processes = s.processes)
    (hstarting : ∀ sub ∈ s'.submissions, ∀ slot, sub.stage = .starting slot →
      sub ∈ s.submissions) : s'.Watched where
  oneLive := by
    unfold OneLive
    rw [hprocesses]
    exact h.oneLive
  starting sub hsub slot hstage := by
    unfold NoneLive
    rw [hprocesses]
    exact h.starting sub (hstarting sub hsub slot hstage) slot hstage

theorem starting_of_goto (hstage : ∀ slot, stage ≠ .starting slot) :
    ∀ b ∈ (s.goto i sub stage).submissions, ∀ slot, b.stage = .starting slot →
      b ∈ s.submissions := by
  intro b hb slot hstarting
  obtain hb | rfl := mem_or_eq_of_mem_set hb
  · exact hb
  · exact absurd hstarting (hstage slot)

theorem getElem?_concat {α : Type*} {l : List α} {a b : α} {j : ℕ}
    (h : (l ++ [a])[j]? = some b) : l[j]? = some b ∨ j = l.length ∧ a = b := by
  rw [getElem?_append] at h
  split at h
  · exact .inl h
  · next hle =>
    rw [getElem?_singleton] at h
    split at h
    · next hzero => exact .inr ⟨by omega, some.inj h⟩
    · cases h

/-- A process is started for a session of which none is alive. -/
theorem Watched.spawn (h : s.Watched) (hsound : s.Sound) (hi : s.submissions[i]? = some sub)
    (hstage : sub.stage = .starting slot) : (s.spawn i sub slot).Watched where
  oneLive process process' sessionId hp hp' := by
    have hnone := h.starting sub (mem_of_getElem? hi) slot hstage
    obtain hp | ⟨rfl, hnew⟩ := getElem?_concat hp <;>
      obtain hp' | ⟨rfl, hnew'⟩ := getElem?_concat hp'
    · exact h.oneLive process process' sessionId hp hp'
    · exact absurd (hnew' ▸ mem_of_getElem? hp) hnone
    · exact absurd (hnew ▸ mem_of_getElem? hp') hnone
    · rfl
  starting b hb slot' hstarting := by
    have hlock : sub.stage.lock = some slot := by rw [hstage]; rfl
    have honly := hsound.onlyHolder hi hlock
    obtain ⟨j, hj⟩ := mem_iff_getElem?.mp hb
    simp only [Runtimes.spawn, Runtimes.goto, getElem?_set] at hj
    split at hj
    · split at hj
      · cases hj
        cases hstarting
      · cases hj
    · next hne =>
      have hmem := mem_of_getElem? hj
      intro hp
      obtain hp | hp := mem_append.mp hp
      · exact h.starting b hmem slot' hstarting hp
      · -- Two submissions of one session would hold one guard.
        have hsame := (Process.mk.inj (mem_singleton.mp hp)).1
        have hused := hsound.used b hmem slot' (by rw [hstarting]; rfl)
        rw [hsame, hsound.used sub (mem_of_getElem? hi) slot (slot_of_lock hlock)] at hused
        obtain rfl := (Prod.mk.inj (some.inj hused)).2
        exact hne (honly j b hj (by rw [hstarting]; rfl)).symm

theorem removeEmptyRuntimeSlot_frame (sessionId : String) (slot : ℕ) :
    (s.removeEmptyRuntimeSlot sessionId slot).submissions = s.submissions ∧
      (s.removeEmptyRuntimeSlot sessionId slot).processes = s.processes := by
  unfold removeEmptyRuntimeSlot
  split <;> exact ⟨rfl, rfl⟩

section

variable (h : s.Watched)
include h

theorem Watched.finish (i : ℕ) : (s.finish i).Watched :=
  h.of_processes rfl fun _ hb _ _ => mem_of_mem_eraseIdx hb

theorem Watched.goto (hstage : ∀ slot, stage ≠ .starting slot) :
    (s.goto i sub stage).Watched :=
  h.of_processes rfl (starting_of_goto hstage)

theorem Watched.store (slot : ℕ) (runtime : Option ℕ) :
    (s.store slot runtime).Watched :=
  h.of_processes rfl fun _ hb _ _ => hb

theorem Watched.acquire : (s.acquire i sub).Watched := by
  unfold Runtimes.acquire
  split
  · exact h.goto fun _ => Stage.noConfusion
  · exact h.of_processes rfl (starting_of_goto fun _ => Stage.noConfusion)

/-- A submission that found no running provider is to start one. -/
theorem Watched.toStarting (hnone : s.NoneLive sub.sessionId) (slot : ℕ) :
    (s.goto i sub (.starting slot)).Watched where
  oneLive := h.oneLive
  starting b hb slot' hstarting := by
    obtain hb | rfl := mem_or_eq_of_mem_set hb
    · exact h.starting b hb slot' hstarting
    · exact hnone

theorem Watched.advance (hsound : s.Sound) (hi : s.submissions[i]? = some sub)
    {env : Surroundings Age} (hdetects : s.Asks sub → ⟨sub.sessionId, true⟩ ∈ s.processes →
      env.machine.sessionIsRunning sub.session = true) :
    (s.advance i sub env).Watched := by
  unfold Runtimes.advance
  cases hsub : sub.stage with
  | arriving => exact h.acquire
  | cloned slot =>
    dsimp only
    split
    · exact h.finish i
    · exact h.goto fun _ => Stage.noConfusion
  | locked slot =>
    dsimp only
    split
    · exact h.goto fun _ => Stage.noConfusion
    · next hempty =>
      split
      · exact h.goto fun _ => Stage.noConfusion
      · next hquiet =>
        have hasks : s.Asks sub := by
          unfold Asks
          rw [hsub]
          exact hsound.slotEmpty hi (by rw [hsub]; rfl) hempty
        exact h.toStarting (fun hlive => hquiet (hdetects hasks hlive)) slot
  | sending slot process =>
    dsimp only
    split
    · exact h.finish i
    · exact h.finish i
    · exact (h.goto fun _ => Stage.noConfusion).store slot none
  | starting slot =>
    dsimp only
    split
    · exact h.goto fun _ => Stage.noConfusion
    · exact h.spawn hsound hi hsub
  | started slot process =>
    dsimp only
    split
    · exact h.goto fun _ => Stage.noConfusion
    · split
      · exact h.goto fun _ => Stage.noConfusion
      · exact (h.finish i).store slot (some process)
  | cleaning slot =>
    obtain ⟨hsubmissions, hprocesses⟩ := removeEmptyRuntimeSlot_frame (s := s) sub.sessionId slot
    refine Watched.finish (h.of_processes hprocesses fun b hb _ _ => ?_) i
    rwa [hsubmissions] at hb

end

/-- A process that exits was alive or was not; none comes alive. -/
theorem live_of_exit {other : ℕ} {p live : Process}
    (hlive : (s.processes.set process { p with alive := false })[other]? = some live)
    (halive : live.alive = true) : s.processes[other]? = some live := by
  rw [getElem?_set] at hlive
  split at hlive
  · split at hlive
    · cases hlive
      cases halive
    · cases hlive
  · exact hlive

theorem Watched.exit (h : s.Watched) {p : Process} :
    Watched { s with processes := s.processes.set process { p with alive := false } } where
  oneLive other other' sessionId hp hp' :=
    h.oneLive other other' sessionId (live_of_exit hp rfl) (live_of_exit hp' rfl)
  starting sub hsub slot hstage hlive := by
    obtain ⟨other, hother⟩ := mem_iff_getElem?.mp hlive
    exact h.starting sub hsub slot hstage (mem_of_getElem? (live_of_exit hother rfl))

theorem Watched.submit (h : s.Watched) (session : SessionProcessInput) :
    Watched { s with submissions := s.submissions ++ [⟨session, .arriving⟩] } := by
  refine h.of_processes rfl fun b hb slot hstage => ?_
  obtain hb | hb := mem_append.mp hb
  · exact hb
  · rw [mem_singleton.mp hb] at hstage
    cases hstage

theorem Watched.step (h : s.Watched) (hsound : s.Sound) {e : Event Age} (hdetects : s.Detects e)
    (hs : s.step e = some s') : s'.Watched := by
  cases e with
  | submit session =>
    obtain rfl := some.inj hs
    exact h.submit session
  | advance i env =>
    obtain ⟨sub, hi, rfl⟩ := map_eq_some_iff.mp hs
    exact h.advance hsound hi (hdetects sub hi)
  | cancel i =>
    simp only [Runtimes.step] at hs
    split at hs
    · obtain rfl := some.inj hs
      exact h.finish i
    · cases hs
  | exit process =>
    obtain ⟨p, hp, rfl⟩ := map_eq_some_iff.mp hs
    exact h.exit

end Live

theorem watched_init : init.Watched where
  oneLive process process' sessionId h := by simp [init] at h
  starting _ h := (not_mem_nil h).elim

/-- **One runtime.** In every run, a session has one runtime and a submission sends to the one in
the slot that it locked; where every look at the table of processes shows a session of which a
process is alive as running, a session also has one live process. -/
theorem one_runtime (s : Runtimes) :
    (Reaches step (always : Runtimes → Event Age → Prop) init s → s.Orderly) ∧
      (Reaches step (Detects : Runtimes → Event Age → Prop) init s → s.OneLive) := by
  constructor
  · intro h
    exact (h.invariant sound_init fun _ _ _ hsound _ hs => hsound.step hs).orderly
  · intro h
    have hboth : s.Sound ∧ s.Watched :=
      h.invariant (I := fun s => s.Sound ∧ s.Watched) ⟨sound_init, watched_init⟩
        fun _ _ _ hinv hdetects hs => ⟨hinv.1.step hs, hinv.2.step hinv.1 hdetects hs⟩
    exact hboth.2.oneLive

/-! ### Two runs -/

section Runs

/-- A session that has been idle for a minute. -/
def idleSession : SessionProcessInput :=
  ⟨"s", "claude", "/home/u/.claude/projects/p/s.jsonl", some 0, some 0, none⟩

/-- A machine with these processes, a minute after the last record of the session. -/
def machineOf (procs : List ProcInfo) (sorted : (procs.map ProcInfo.pid).Pairwise (· < ·)) :
    Machine ℕ where
  sample := ⟨0, procs, sorted⟩
  cwd := fun _ => none
  processAgeS := fun _ => 0
  fdPaths := fun _ => [idleSession.path]
  canonicalize := fun _ => none
  nowMs := 60000

/-- No process, a provider can be spawned and accepts what it is sent. -/
def calm : Surroundings ℕ := ⟨machineOf [] (by decide), true, .accepted⟩

/-- The provider has just started, and has the log of its session open. -/
def provided : Surroundings ℕ where
  machine := machineOf [⟨100, 1, 100, "claude", "claude", 0, 0, 0, 0, 1, 0, 0⟩] (by decide)
  spawns := true
  sent := .accepted

/-- A submission starts a provider, which is kept, and a second one sends to it. -/
def keptRun : List (Event ℕ) :=
  [.submit idleSession, .advance 0 calm, .advance 0 calm, .advance 0 calm, .advance 0 calm,
    .advance 0 calm, .submit idleSession, .advance 0 calm, .advance 0 calm, .advance 0 calm]

/-- The provider fails to take a message and its runtime is dropped; the next submission has
locked an empty slot. -/
def droppedRun : List (Event ℕ) :=
  keptRun ++ [.advance 0 { calm with sent := .failed }, .advance 0 calm, .submit idleSession,
    .advance 0 calm, .advance 0 calm]

/-- The state after `droppedRun`. -/
def dropped : Runtimes :=
  ⟨[("s", 1)], [none, none], [⟨idleSession, .locked 1⟩], [⟨"s", true⟩]⟩

/-- A message is on its way to the runtime of a live process. -/
theorem one_runtime_sending : ∃ s : Runtimes, s.Orderly ∧ s.OneLive ∧
    s.processes = [⟨"s", true⟩] ∧ s.submissions = [⟨idleSession, .sending 0 0⟩] := by
  obtain ⟨s, hreaches, hkept⟩ := exists_reaches_of_run
    (Q := fun s => s.processes = [⟨"s", true⟩] ∧ s.submissions = [⟨idleSession, .sending 0 0⟩])
    Runtimes.step Detects init keptRun (by decide +kernel)
  have halways := hreaches.mono fun _ _ _ => trivial
  exact ⟨s, (one_runtime s).1 halways, (one_runtime s).2 hreaches, hkept⟩

theorem step_dropped : dropped.step (.advance 0 provided) =
    some (dropped.goto 0 ⟨idleSession, .locked 1⟩ (.starting 1)) := by
  have hmissed : provided.machine.sessionIsRunning idleSession = false :=
    Machine.sessionIsRunning_of_late (by decide +kernel)
  change some (if provided.machine.sessionIsRunning idleSession then _ else _) = _
  rw [hmissed]
  rfl

/-- The process of a dropped runtime goes on beside the one that is started next, although the
process table shows it with the log of the session open. -/
theorem two_live :
    ∃ s, Reaches step (always : Runtimes → Event ℕ → Prop) init s ∧ ¬ s.OneLive := by
  have hdropped : Reaches Runtimes.step always init dropped :=
    reaches_of_run .refl (show run step always init droppedRun = some dropped by decide +kernel)
  have hspawned := (hdropped.tail trivial step_dropped).tail (a := .advance 0 calm) trivial rfl
  refine ⟨_, hspawned, fun h => ?_⟩
  exact absurd (h 0 1 "s" rfl rfl) (by decide)

end Runs

end Runtimes

end AgentSight.Collector
