import AgentSight.Lib.ProcessTable
import AgentSight.Lib.Transition
import Mathlib.Data.UInt

/-!
# The stdio tracer in session mode

`stdiocap.bpf.c` and `stdiocap.c` with `--session`. The map `tracked_pids` has the pids of the
session: `refresh_session_pids` puts in what a scan of `/proc` finds, and a system call of a process
that is not in it walks up the chain of parents and puts the process in if one of the first eight
is. Nothing takes a pid out. A payload is emitted at the end of a call whose begin was let through.

A state has the processes of the kernel, with their history. A thread leaves its system call before
its process ends. A program of the kernel, and a look at one pid by the scan, is one step; between
the look and the update of the map anything can happen.
-/

namespace AgentSight.Stdiocap

open Processes Transition List Option

def maxBufSize : ℕ := 8192

/-- `max_entries` of both maps. -/
def maxEntries : ℕ := 8192

structure Config where
  targUid : UInt32 := 0xffffffff
  traceStdioOnly : Bool := true
  maxCaptureBytes : UInt32 := 8192
  sessionId : UInt32

structure IoArgs where
  fd : Int32
  isRead : Bool
  deriving DecidableEq

structure StdiocapEvent where
  pid : UInt32
  tid : UInt32
  uid : UInt32
  fd : Int32
  len : UInt32
  bufSize : UInt32
  isRead : Bool
  deriving DecidableEq

/-- An event with the process it is from and the processes there were. -/
structure Emission where
  event : StdiocapEvent
  process : ℕ
  table : Table UInt32

structure State where
  table : Table UInt32
  /-- The threads in a `read` or `write`. -/
  calls : List (ℕ × UInt32)
  trackedPids : Finset UInt32
  /-- By pid and thread. -/
  ioArgs : List ((UInt32 × UInt32) × IoArgs)
  /-- The scan has seen the pid in the session. -/
  seen : Option UInt32
  emitted : List Emission

/-- `bpf_map_update_elem` with `BPF_ANY`, which fails for a new key where the map is full. -/
def updateTracked (tracked : Finset UInt32) (pid : UInt32) : Finset UInt32 :=
  if pid ∈ tracked ∨ tracked.card < maxEntries then insert pid tracked else tracked

def deleteArgs (args : List ((UInt32 × UInt32) × IoArgs)) (key : UInt32 × UInt32) :
    List ((UInt32 × UInt32) × IoArgs) :=
  args.filter (·.1 ≠ key)

def updateArgs (args : List ((UInt32 × UInt32) × IoArgs)) (key : UInt32 × UInt32)
    (value : IoArgs) : List ((UInt32 × UInt32) × IoArgs) :=
  if key ∈ args.map Prod.fst ∨ args.length < maxEntries then (key, value) :: deleteArgs args key
  else args

/-! ### The programs of the kernel -/

/-- The walk of `tracked_or_descendant`. -/
def ancestorTracked (table : Table UInt32) (tracked : Finset UInt32) (pid : UInt32) : ℕ → ℕ → Bool
  | 0, _ => false
  | fuel + 1, task =>
    match (table.parentOf task).bind fun parent => table[parent]?.map (parent, ·) with
    | none => false
    | some (parent, proc) =>
      if proc.number = 0 ∨ proc.number = pid then false
      else if proc.number ∈ tracked then true
      else ancestorTracked table tracked pid fuel parent

def trackedOrDescendant (table : Table UInt32) (tracked : Finset UInt32) (task : ℕ) (pid : UInt32) :
    Bool × Finset UInt32 :=
  if pid ∈ tracked then (true, tracked)
  else if ancestorTracked table tracked pid 8 task then (true, updateTracked tracked pid)
  else (false, tracked)

/-- `trace_allowed` where `use_tracked_pids` is set. -/
def traceAllowed (config : Config) (table : Table UInt32) (tracked : Finset UInt32) (task : ℕ)
    (uid pid : UInt32) (fd : Int32) : Bool × Finset UInt32 :=
  if config.targUid ≠ 0xffffffff ∧ config.targUid ≠ uid then (false, tracked)
  else if config.traceStdioOnly ∧ (fd < 0 ∨ 2 < fd) then (false, tracked)
  else trackedOrDescendant table tracked task pid

def stdiocapEvent (config : Config) (pid tid uid : UInt32) (args : IoArgs) (ret : Int64) :
    StdiocapEvent :=
  let len : UInt32 := if 0xffffffff < ret then 0xffffffff else ret.toUInt64.toUInt32
  { pid, tid, uid, fd := args.fd, len, isRead := args.isRead
    bufSize := min (min len config.maxCaptureBytes) maxBufSize.toUInt32 }

/-! ### Steps -/

inductive Action where
  | kernel (event : Event UInt32)
  /-- `sys_enter_read` or `sys_enter_write`. -/
  | enter (process : ℕ) (tid uid : UInt32) (args : IoArgs)
  /-- `sys_exit_read` or `sys_exit_write`, with what the ring buffer does. -/
  | leave (process : ℕ) (tid uid : UInt32) (ret : Int64) (reserved : Bool)
  /-- `getsid` of a pid. -/
  | look (process : ℕ)
  | record
  deriving DecidableEq

namespace State

variable (config : Config)

def enterCommon (s : State) (process : ℕ) (pid tid uid : UInt32) (args : IoArgs) : State :=
  let (allowed, trackedPids) :=
    traceAllowed config s.table s.trackedPids process uid pid args.fd
  { s with
    trackedPids
    ioArgs := if allowed then updateArgs s.ioArgs (pid, tid) args else s.ioArgs }

def exitCommon (s : State) (process : ℕ) (pid tid uid : UInt32) (ret : Int64) (reserved : Bool) :
    State :=
  match s.ioArgs.lookup (pid, tid) with
  | none => s
  | some args =>
    { s with
      ioArgs := deleteArgs s.ioArgs (pid, tid)
      emitted := if 0 < ret ∧ reserved then
          s.emitted ++ [⟨stdiocapEvent config pid tid uid args ret, process, s.table⟩]
        else s.emitted }

/-- A thread of the process that would end is in a call. -/
def busy (s : State) : Event UInt32 → Bool
  | .exit p _ => s.calls.any (·.1 = p)
  | _ => false

def step (s : State) : Action → Option State
  | .kernel event =>
    if s.busy event then none else (s.table.step event).map fun table => { s with table }
  | .enter p tid uid args =>
    match s.table[p]? with
    | some proc =>
      if proc.life = .running ∧ (p, tid) ∉ s.calls then
        some { s.enterCommon config p proc.number tid uid args with calls := (p, tid) :: s.calls }
      else none
    | none => none
  | .leave p tid uid ret reserved =>
    match s.table[p]? with
    | some proc =>
      if (p, tid) ∈ s.calls then
        some { s.exitCommon config p proc.number tid uid ret reserved with
          calls := s.calls.filter (· ≠ (p, tid)) }
      else none
    | none => none
  | .look p =>
    match s.table[p]? with
    | some proc =>
      if proc.life ≠ .reaped ∧ s.seen = none then
        some { s with
          seen := if s.table.sessionNumber p = some config.sessionId then some proc.number
            else none }
      else none
    | none => none
  | .record =>
    s.seen.map fun pid =>
      { s with trackedPids := updateTracked s.trackedPids pid, seen := none }

/-- The tracer starts in the middle of what the kernel does. -/
def init (table : Table UInt32) (calls : List (ℕ × UInt32)) : State where
  table := table
  calls := calls
  trackedPids := ∅
  ioArgs := []
  seen := none
  emitted := []

/-- The step gives no pid that is in the map, or that the scan is about to put in, to a process
that does not descend from the session, and no such process makes a session of the same number. -/
def Respects (leader : ℕ) (s : State) : Action → Prop
  | .kernel (.fork creator pid _) =>
    pid ∈ s.trackedPids ∨ s.seen = some pid → s.table.Inside leader creator
  | .kernel (.setsid p) =>
    ∀ proc, s.table[p]? = some proc → proc.number = config.sessionId → s.table.Inside leader p
  | _ => True

end State

/-! ### Who has the pids -/

/-- A process that has the pid descends from the session. -/
def Covers (leader : ℕ) (table : Table UInt32) (pid : UInt32) : Prop :=
  ∀ p proc, table[p]? = some proc → proc.life ≠ .reaped → proc.number = pid → table.Inside leader p

variable {leader p : ℕ}

theorem Covers.step {table table' : Table UInt32} {pid : UInt32} {e : Event UInt32}
    (h : Covers leader table pid) (hstep : table.step e = some table')
    (hfork : ∀ creator sibling, e = .fork creator pid sibling → table.Inside leader creator) :
    Covers leader table' pid := by
  intro p proc' hp hlife hpid
  obtain ⟨proc, hproc, hbecomes⟩ | ⟨rfl, creator, number, sibling, procc, rfl, -, -, -, rfl⟩ :=
    Table.step_getElem? hstep hp
  · exact (h p proc hproc (hbecomes.life hlife) (hbecomes.number ▸ hpid)).of_step hstep
  · obtain rfl : number = pid := hpid
    exact ((hfork creator sibling rfl).of_step hstep).of_descends (.single ⟨_, hp, rfl⟩)

section Tracked

variable {leader task : ℕ} {table : Table UInt32} {tracked : Finset UInt32} {pid : UInt32}
  {proc : Process UInt32}

/-- A process whose pid no other has is the only one to cover. -/
theorem covers_of_inside (hvalid : table.Valid) (htask : table[task]? = some proc)
    (hlife : proc.life ≠ .reaped) (hinside : table.Inside leader task) :
    Covers leader table proc.number := by
  intro p proc' hp hlife' hpid
  obtain rfl := hvalid.unique p task proc' proc hp htask hlife' hlife hpid
  exact hinside

theorem covers_updateTracked (h : ∀ pid ∈ tracked, Covers leader table pid)
    (hpid : Covers leader table pid) :
    ∀ pid' ∈ updateTracked tracked pid, Covers leader table pid' := by
  intro pid' hmem
  rw [updateTracked] at hmem
  split_ifs at hmem
  · obtain rfl | hmem := Finset.mem_insert.mp hmem
    · exact hpid
    · exact h pid' hmem
  · exact h pid' hmem

/-- What the walk finds is above the process. -/
theorem inside_of_ancestorTracked (hvalid : table.Valid)
    (h : ∀ pid ∈ tracked, Covers leader table pid) {fuel : ℕ} (htask : table[task]? = some proc)
    (hlife : proc.life ≠ .reaped) (hwalk : ancestorTracked table tracked pid fuel task = true) :
    table.Inside leader task := by
  induction fuel generalizing task proc with
  | zero => cases hwalk
  | succ fuel ih =>
    cases hparent : proc.parent with
    | none => simp [ancestorTracked, Table.parentOf, htask, hparent] at hwalk
    | some parent =>
      obtain ⟨⟨procp, hprocp, hrunning⟩, -, hdescends⟩ :=
        hvalid.parent task proc parent htask hlife hparent
      have hprocp' : table[parent]? = some procp := hprocp
      have hlife' : procp.life ≠ .reaped := by simp [hrunning]
      simp only [ancestorTracked, Table.parentOf, htask, bind_some, hparent, hprocp',
        map_some] at hwalk
      split_ifs at hwalk with hstop htracked
      · exact .of_descends hdescends (h _ htracked parent procp hprocp' hlife' rfl)
      · exact .of_descends hdescends (ih hprocp' hlife' hwalk)

/-- A call that is let through is from inside, and so is what is put into the map. -/
theorem traceAllowed_spec (config : Config) (hvalid : table.Valid)
    (h : ∀ pid ∈ tracked, Covers leader table pid) (htask : table[task]? = some proc)
    (hlife : proc.life ≠ .reaped) (uid : UInt32) (fd : Int32) :
    ((traceAllowed config table tracked task uid proc.number fd).1 = true →
      table.Inside leader task) ∧
    ∀ pid ∈ (traceAllowed config table tracked task uid proc.number fd).2,
      Covers leader table pid := by
  rw [traceAllowed]
  split_ifs
  · exact ⟨False.elim, h⟩
  · exact ⟨False.elim, h⟩
  · rw [trackedOrDescendant]
    split_ifs with htracked hwalk
    · exact ⟨fun _ => h _ htracked task proc htask hlife rfl, h⟩
    · have hinside := inside_of_ancestorTracked hvalid h htask hlife hwalk
      exact ⟨fun _ => hinside, covers_updateTracked h (covers_of_inside hvalid htask hlife hinside)⟩
    · exact ⟨False.elim, h⟩

end Tracked

/-! ### Runs -/

/-- What holds in every state of a run. -/
structure Sound (config : Config) (leader : ℕ) (s : State) : Prop where
  valid : s.table.Valid
  running : ∀ c ∈ s.calls, s.table.isRunning c.1
  session : ∀ p proc, s.table[p]? = some proc → proc.life ≠ .reaped →
    s.table.sessionNumber p = some config.sessionId → s.table.Inside leader p
  tracked : ∀ pid ∈ s.trackedPids, Covers leader s.table pid
  seen : ∀ pid ∈ s.seen, Covers leader s.table pid
  args : ∀ x ∈ s.ioArgs, ∃ p proc, s.table[p]? = some proc ∧ proc.number = x.1.1 ∧
    (p, x.1.2) ∈ s.calls ∧ s.table.Inside leader p
  emitted : ∀ e ∈ s.emitted, e.table.Inside leader e.process

namespace Sound

variable {config : Config} {leader : ℕ} {s s' : State} {a : Action}

section

variable (h : Sound config leader s)
include h

theorem kernel {event : Event UInt32}
    (hok : s.Respects config leader (.kernel event))
    (hstep : s.step config (.kernel event) = some s') : Sound config leader s' := by
  obtain ⟨hbusy, hstep⟩ := ite_none_left_eq_some.mp hstep
  obtain ⟨table, htable, rfl⟩ := map_eq_some_iff.mp hstep
  have hcovers pid (hpid : pid ∈ s.trackedPids ∨ s.seen = some pid)
      (hpid' : Covers leader s.table pid) : Covers leader table pid := by
    refine hpid'.step htable ?_
    rintro creator sibling rfl
    exact hok hpid
  refine ⟨h.valid.step htable, ?_, ?_, ?_, ?_, ?_, h.emitted⟩
  · intro c hc
    refine Table.isRunning_of_step htable (h.running c hc) ?_
    rintro reaper rfl
    exact hbusy (any_eq_true.mpr ⟨c, hc, by simp⟩)
  · intro p proc' hp hlife hsession
    obtain ⟨proc, hproc, hlife', hsame | ⟨rfl, hnumber⟩⟩ | ⟨creator, number, sibling, rfl, hrunning,
      hdescends, hsame⟩ := Table.sessionNumber_of_step h.valid htable hp
    · exact (h.session p proc hproc (hlife' hlife) (hsame ▸ hsession)).of_step htable
    · have hnumber' : proc.number = config.sessionId :=
        some.inj (hnumber.symm.trans hsession)
      exact (hok proc hproc hnumber').of_step htable
    · obtain ⟨procc, hprocc, hrunningc⟩ := hrunning
      have hinside := h.session creator procc hprocc (by simp [hrunningc]) (hsame ▸ hsession)
      exact (hinside.of_step htable).of_descends hdescends
  · exact fun pid hpid => hcovers pid (.inl hpid) (h.tracked pid hpid)
  · exact fun pid hpid => hcovers pid (.inr hpid) (h.seen pid hpid)
  · intro x hx
    obtain ⟨p, proc, hproc, hnumber, hcall, hinside⟩ := h.args x hx
    obtain ⟨proc', hproc', hbecomes⟩ := Table.getElem?_of_step htable hproc
    exact ⟨p, proc', hproc', hbecomes.number.trans hnumber, hcall, hinside.of_step htable⟩

theorem enter {tid uid : UInt32} {args : IoArgs}
    (hstep : s.step config (.enter p tid uid args) = some s') : Sound config leader s' := by
  simp only [State.step] at hstep
  split at hstep
  · next proc hproc =>
    obtain ⟨⟨hrunning, -⟩, hstep⟩ := ite_none_right_eq_some.mp hstep
    obtain rfl := some.inj hstep
    have hlife : proc.life ≠ .reaped := by simp [hrunning]
    obtain ⟨hallowed, htracked⟩ :=
      traceAllowed_spec config h.valid h.tracked hproc hlife uid args.fd
    refine ⟨h.valid, ?_, h.session, htracked, h.seen, fun x hx => ?_, h.emitted⟩
    · exact forall_mem_cons.mpr ⟨⟨proc, hproc, hrunning⟩, h.running⟩
    · have hold (hx : x ∈ s.ioArgs) : ∃ q proc', s.table[q]? = some proc' ∧
          proc'.number = x.1.1 ∧ (q, x.1.2) ∈ (p, tid) :: s.calls ∧ s.table.Inside leader q := by
        obtain ⟨q, proc', hproc', hnumber, hcall, hinside⟩ := h.args x hx
        exact ⟨q, proc', hproc', hnumber, mem_cons_of_mem _ hcall, hinside⟩
      simp only [State.enterCommon] at hx
      split_ifs at hx with hlet
      · rw [updateArgs] at hx
        split_ifs at hx
        · obtain rfl | hx := mem_cons.mp hx
          · exact ⟨p, proc, hproc, rfl, mem_cons_self, hallowed hlet⟩
          · exact hold (mem_of_mem_filter hx)
        · exact hold hx
      · exact hold hx
  · cases hstep

/-- The arguments that the end of a call finds are those of its begin. -/
theorem inside_of_mem_args {tid : UInt32} {proc : Process UInt32} (hproc : s.table[p]? = some proc)
    (hlife : proc.life ≠ .reaped)
    {args : IoArgs} (hargs : ((proc.number, tid), args) ∈ s.ioArgs) : s.table.Inside leader p := by
  obtain ⟨q, proc', hproc', hnumber, hcall, hinside⟩ := h.args _ hargs
  obtain ⟨procq, hprocq, hrunning⟩ := h.running _ hcall
  obtain rfl := some.inj (hproc'.symm.trans hprocq)
  obtain rfl := h.valid.unique q p proc' proc hproc' hproc (by simp [hrunning]) hlife hnumber
  exact hinside

theorem leave {tid uid : UInt32} {ret : Int64} {reserved : Bool}
    (hstep : s.step config (.leave p tid uid ret reserved) = some s') : Sound config leader s' := by
  simp only [State.step] at hstep
  split at hstep
  · next proc hproc =>
    obtain ⟨hcall, hstep⟩ := ite_none_right_eq_some.mp hstep
    obtain rfl := some.inj hstep
    have hrunning : ∀ c ∈ s.calls.filter (· ≠ (p, tid)), s.table.isRunning c.1 :=
      fun c hc => h.running c (mem_of_mem_filter hc)
    have hlife : proc.life ≠ .reaped := by
      obtain ⟨proc', hproc', hrunning⟩ := h.running _ hcall
      obtain rfl := some.inj (hproc.symm.trans hproc')
      simp [hrunning]
    -- what is left of the arguments is of other calls
    have hother x (hx : x ∈ s.ioArgs)
        (hne : x.1 ≠ (proc.number, tid)) : ∃ q proc', s.table[q]? = some proc' ∧
          proc'.number = x.1.1 ∧ (q, x.1.2) ∈ s.calls.filter (· ≠ (p, tid)) ∧
            s.table.Inside leader q := by
      obtain ⟨q, proc', hproc', hnumber, hcall', hinside⟩ := h.args x hx
      refine ⟨q, proc', hproc', hnumber, mem_filter.mpr ⟨hcall', ?_⟩, hinside⟩
      refine decide_eq_true fun heq => hne ?_
      obtain ⟨rfl, htid⟩ := Prod.mk.inj heq
      obtain rfl := some.inj (hproc.symm.trans hproc')
      exact Prod.ext hnumber.symm htid
    rw [State.exitCommon]
    split
    · next hnone =>
      refine ⟨h.valid, hrunning, h.session, h.tracked, h.seen, fun x hx => ?_, h.emitted⟩
      refine hother x hx ?_
      rintro heq
      exact absurd (lookup_eq_none_iff.mp hnone x hx) (by simp [heq])
    · next args hsome =>
      have hargs : ((proc.number, tid), args) ∈ s.ioArgs := by
        obtain ⟨before, after, heq, -⟩ := lookup_eq_some_iff.mp hsome
        simp [heq]
      have hinside := h.inside_of_mem_args hproc hlife hargs
      refine ⟨h.valid, hrunning, h.session, h.tracked, h.seen, fun x hx => ?_, ?_⟩
      · obtain ⟨hx, hne⟩ := mem_filter.mp hx
        exact hother x hx (of_decide_eq_true hne)
      · split_ifs
        · intro e he
          obtain he | he := mem_append.mp he
          · exact h.emitted e he
          · obtain rfl := mem_singleton.mp he
            exact hinside
        · exact h.emitted
  · cases hstep

theorem look (hstep : s.step config (.look p) = some s') :
    Sound config leader s' := by
  simp only [State.step] at hstep
  split at hstep
  · next proc hproc =>
    obtain ⟨⟨hlife, -⟩, hstep⟩ := ite_none_right_eq_some.mp hstep
    obtain rfl := some.inj hstep
    refine ⟨h.valid, h.running, h.session, h.tracked, ?_, h.args, h.emitted⟩
    intro pid hpid
    split_ifs at hpid with hsession
    · obtain rfl := some.inj hpid
      exact covers_of_inside h.valid hproc hlife (h.session p proc hproc hlife hsession)
    · cases hpid
  · cases hstep

theorem record (hstep : s.step config .record = some s') :
    Sound config leader s' := by
  obtain ⟨pid, hpid, rfl⟩ := map_eq_some_iff.mp hstep
  refine ⟨h.valid, h.running, h.session, ?_, ?_, h.args, h.emitted⟩
  · exact covers_updateTracked h.tracked (h.seen pid hpid)
  · exact fun _ hnone => by cases hnone

theorem step (hok : s.Respects config leader a)
    (hstep : s.step config a = some s') : Sound config leader s' := by
  cases a with
  | kernel event => exact h.kernel hok hstep
  | enter p tid uid args => exact h.enter hstep
  | leave p tid uid ret reserved => exact h.leave hstep
  | look p => exact h.look hstep
  | record => exact h.record hstep

end

end Sound

/-- Where the tracer starts, the processes are valid, each call is of a process that runs, and
the session of the number given is the one of the leader. -/
structure Starts (config : Config) (leader : ℕ) (table : Table UInt32)
    (calls : List (ℕ × UInt32)) : Prop where
  valid : table.Valid
  running : ∀ c ∈ calls, table.isRunning c.1
  session : ∀ p proc, table[p]? = some proc → proc.life ≠ .reaped →
    table.sessionNumber p = some config.sessionId → proc.session = leader

theorem sound_init {config : Config} {table : Table UInt32}
    {calls : List (ℕ × UInt32)} (h : Starts config leader table calls) :
    Sound config leader (.init table calls) where
  valid := h.valid
  running := h.running
  session p proc hp hlife hsession :=
    ⟨p, .refl, proc, hp, .inl (h.session p proc hp hlife hsession)⟩
  tracked _ hpid := absurd hpid (Finset.notMem_empty _)
  seen _ hpid := by cases hpid
  args _ hx := absurd hx not_mem_nil
  emitted _ he := absurd he not_mem_nil

/-- **The capture stays in the session**, in every history in which no pid that is tracked, or
about to be, goes to a process from outside: whatever is emitted is from a process that then is in
the session, or has been, or descends from one that is or has been. -/
theorem capture_inside {config : Config} {leader : ℕ} {table : Table UInt32}
    {calls : List (ℕ × UInt32)} {s : State} (hstart : Starts config leader table calls)
    (h : Reaches (State.step config) (State.Respects config leader) (.init table calls) s) :
    ∀ e ∈ s.emitted, e.table.Inside leader e.process := by
  have hsound : Sound config leader s := by
    refine h.invariant (I := Sound config leader) (sound_init hstart) ?_
    exact fun s a s' hs hok hstep => hs.step hok hstep
  exact hsound.emitted

/-! ### A pid that is used again -/

/-- Init, the leader of the session 100, and its child 101. -/
def shellTable : Table UInt32 :=
  [⟨1, none, none, 0, [], .running⟩, ⟨100, some 0, some 0, 1, [], .running⟩,
    ⟨101, some 1, some 1, 1, [], .running⟩]

theorem mem_shellTable {proc : Process UInt32} (h : shellTable[p]? = some proc) :
    p = 0 ∧ proc = ⟨1, none, none, 0, [], .running⟩ ∨
      p = 1 ∧ proc = ⟨100, some 0, some 0, 1, [], .running⟩ ∨
        p = 2 ∧ proc = ⟨101, some 1, some 1, 1, [], .running⟩ := by
  match p with
  | 0 => exact .inl ⟨rfl, (some.inj h).symm⟩
  | 1 => exact .inr (.inl ⟨rfl, (some.inj h).symm⟩)
  | 2 => exact .inr (.inr ⟨rfl, (some.inj h).symm⟩)
  | p + 3 => cases h

theorem starts_shellTable : Starts { sessionId := 100 } 1 shellTable [] where
  valid :=
    { leader := fun p proc hp => by
        obtain ⟨-, rfl⟩ | ⟨-, rfl⟩ | ⟨-, rfl⟩ := mem_shellTable hp <;> decide
      unique := fun p q proc proc' hp hq _ _ hnumber => by
        obtain ⟨rfl, rfl⟩ | ⟨rfl, rfl⟩ | ⟨rfl, rfl⟩ := mem_shellTable hp <;>
          obtain ⟨rfl, rfl⟩ | ⟨rfl, rfl⟩ | ⟨rfl, rfl⟩ := mem_shellTable hq <;>
            first | rfl | exact absurd hnumber (by decide)
      parent := fun p proc q hp _ hparent => by
        obtain ⟨rfl, rfl⟩ | ⟨rfl, rfl⟩ | ⟨rfl, rfl⟩ := mem_shellTable hp
        · cases hparent
        · obtain rfl := some.inj hparent
          exact ⟨by decide, by decide, .single ⟨_, hp, rfl⟩⟩
        · obtain rfl := some.inj hparent
          exact ⟨by decide, by decide, .single ⟨_, hp, rfl⟩⟩ }
  running _ hc := absurd hc not_mem_nil
  session p proc hp _ hsession := by
    obtain ⟨rfl, rfl⟩ | ⟨rfl, rfl⟩ | ⟨rfl, rfl⟩ := mem_shellTable hp
    · exact absurd hsession (by decide)
    · rfl
    · rfl

/-- The child is scanned, and writes. -/
def childWrites : List Action :=
  [.look 2, .record, .enter 2 101 0 ⟨1, false⟩, .leave 2 101 0 5 true]

/-- The child ends, init makes a process with its pid, and that one writes. -/
def pidReused : List Action :=
  [.look 2, .record, .kernel (.exit 2 (some 0)), .kernel (.reap 2), .kernel (.fork 0 101 false),
    .enter 3 101 0 ⟨1, false⟩, .leave 3 101 0 5 true]

/-- What is there then. -/
def reusedTable : Table UInt32 :=
  [⟨1, none, none, 0, [], .running⟩, ⟨100, some 0, some 0, 1, [], .running⟩,
    ⟨101, some 1, some 1, 1, [], .reaped⟩, ⟨101, some 0, some 0, 0, [], .running⟩]

/-- Neither the process with the pid used again nor init has been in the session. -/
theorem not_inside_reusedTable : ¬ reusedTable.Inside 1 3 := by
  rintro ⟨q, hdescends, proc, hq, hsession⟩
  have hinit : q = 3 ∨ q = 0 := by
    clear hq
    induction hdescends with
    | refl => exact .inl rfl
    | tail _ hmade ih =>
      obtain ⟨proc, hproc, hcreator⟩ := hmade
      obtain rfl | rfl := ih <;> obtain rfl := some.inj hproc
      · exact .inr (some.inj hcreator).symm
      · cases hcreator
  obtain rfl | rfl := hinit <;> obtain rfl := some.inj hq <;> simp at hsession

/-- A step that makes no process and no session. -/
private def MakesNone (_ : State) : Action → Bool
  | .kernel (.fork ..) | .kernel (.setsid _) => false
  | _ => true

private theorem respects_of_makesNone {config : Config} {s : State} {a : Action}
    (h : MakesNone s a = true) : s.Respects config leader a := by
  match a with
  | .kernel (.fork ..) | .kernel (.setsid _) => cases h
  | .kernel (.exit ..) | .kernel (.reap _) => trivial
  | .enter .. | .leave .. | .look _ | .record => trivial

/-- What the child writes is emitted. -/
theorem capture_inside_of_child :
    ∃ s, Reaches (State.step { sessionId := 100 }) (State.Respects { sessionId := 100 } 1)
        (.init shellTable []) s ∧
      s.emitted.length = 1 ∧ ∀ e ∈ s.emitted, e.table.Inside 1 e.process := by
  obtain ⟨s, hs, hemitted⟩ := exists_reaches_of_run (State.step { sessionId := 100 })
    (fun s a => MakesNone s a = true) (.init shellTable [])
    (Q := fun s => s.emitted.length = 1) childWrites (by decide)
  have hrespects : Reaches (State.step { sessionId := 100 })
      (State.Respects { sessionId := 100 } 1) (.init shellTable []) s :=
    hs.mono fun s a h => respects_of_makesNone h
  exact ⟨s, hrespects, hemitted, capture_inside starts_shellTable hrespects⟩

/-- **A pid that is used again leaks**: what a child of init writes is emitted. It is not in the
session, and neither it nor init ever has been. -/
theorem reused_pid_leaks :
    ∃ s, Reaches (State.step { sessionId := 100 }) (fun _ _ => True) (.init shellTable []) s ∧
      ∃ e ∈ s.emitted, ¬ e.table.Inside 1 e.process := by
  obtain ⟨s, hs, hemitted⟩ := exists_reaches_of_run (State.step { sessionId := 100 })
    (fun _ _ => True) (.init shellTable [])
    (Q := fun s => s.emitted.map (fun e => (e.process, e.table)) = [(3, reusedTable)])
    pidReused (by decide)
  obtain ⟨e, he⟩ : ∃ e, s.emitted = [e] := by
    refine length_eq_one_iff.mp ?_
    simpa using congrArg List.length hemitted
  rw [he, map_singleton, singleton_inj] at hemitted
  obtain ⟨hprocess, htable⟩ := Prod.mk.inj hemitted
  refine ⟨s, hs, e, by simp [he], ?_⟩
  rw [hprocess, htable]
  exact not_inside_reusedTable

end AgentSight.Stdiocap
