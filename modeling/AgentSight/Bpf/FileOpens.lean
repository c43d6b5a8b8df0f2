import AgentSight.Bpf.Event
import AgentSight.Bpf.ProcessFilter
import AgentSight.Lib.KeyedSum
import AgentSight.Lib.SwapRemove
import AgentSight.Lib.Transition
import Mathlib.Algebra.Order.BigOperators.Group.Finset

/-!
# Counting file opens

`handle_event` of `bpf/process.c` and the table it keeps for opens of files. The first open
of a path is printed at once with count 1; opens that repeat it within the window only raise
the count of its entry, and the entry is printed with that count when it expires or its pid
exits. The table is indexed by a hash of the pid and the path, has room for `maxFileHashes`
entries, and is emptied by swapping the last entry into the gap.

The count of an entry starts at 1 for the open that was already printed, so an entry that is
ever printed reports one open too many (`first_open_counted_twice`). `opens_conserved` is what
remains: runs in which no open finds an entry of its hash.
-/

namespace AgentSight.Bpf

open KeyedSum SwapRemove Transition List

/-! ### The tables -/

def fileDedupWindowNs : UInt64 := 60000000000

def maxFileHashes : ℕ := 1024

def maxPidLimits : ℕ := 256

def maxDistinctFilesPerSec : UInt32 := 30

structure FileHashEntry where
  hash : UInt64
  timestampNs : UInt64
  count : UInt32
  pid : Int32
  comm : CString taskCommLen
  filepath : CString maxFilenameLen
  flags : Int32
  deriving DecidableEq

structure PerSecondLimit where
  pid : Int32
  currentSecond : UInt64
  distinctFileCount : UInt32
  shouldWarnNext : Bool
  deriving DecidableEq

/-- The members of `env` that `handle_event` reads. -/
structure Env where
  verbose : Bool
  sessionId : Int32

structure ProcessTracer where
  env : Env
  tracker : PidTracker
  fileHashes : CountedArray FileHashEntry maxFileHashes
  pidLimits : CountedArray PerSecondLimit maxPidLimits
  printed : List Line

/-! ### Filters -/

def commandMatchesAnyFilter (comm : List UInt8) (commandFilters : List String) : Bool :=
  commandFilters.any fun filter => filter.toUTF8.toList = comm

def shouldTrackProcess (tracker : PidTracker) (comm : List UInt8) (pid ppid : Int32) : Bool :=
  match tracker.filterMode with
  | .all => true
  | .proc => true
  | .filter =>
    (tracker.targetPid > 0 && pid = tracker.targetPid) || pidTrackerIsTracked tracker ppid ||
      commandMatchesAnyFilter comm tracker.commandFilters

/-- `sid` is what `getsid(pid)` returns. -/
def processInTargetSession (env : Env) (sid : Int32) : Bool :=
  env.sessionId > 0 && sid = env.sessionId

def shouldTrackEventProcess (env : Env) (tracker : PidTracker) (comm : List UInt8)
    (pid ppid sid : Int32) : Bool :=
  if processInTargetSession env sid then true
  else if env.sessionId > 0 then false
  else shouldTrackProcess tracker comm pid ppid

def shouldReportFileOps (tracker : PidTracker) (pid : Int32) : Bool :=
  match tracker.filterMode with
  | .all => true
  | _ => pidTrackerIsTracked tracker pid

def shouldReportBashReadline (tracker : PidTracker) (pid : Int32) : Bool :=
  match tracker.filterMode with
  | .filter => pidTrackerIsTracked tracker pid
  | _ => true

/-! ### The rate limit -/

/-- One event against the limit of its pid: the limit after it, whether the event is dropped
and whether the previous second is to be warned about. -/
def PerSecondLimit.tick (limit : PerSecondLimit) (currentSecond : UInt64) :
    PerSecondLimit × Bool × Bool :=
  let newSecond := limit.currentSecond ≠ currentSecond
  let addWarning := newSecond && limit.shouldWarnNext
  let limit :=
    if newSecond then { limit with currentSecond, distinctFileCount := 0, shouldWarnNext := false }
    else limit
  let limit := { limit with distinctFileCount := limit.distinctFileCount + 1 }
  if limit.distinctFileCount > maxDistinctFilesPerSec then
    ({ limit with shouldWarnNext := true }, true, addWarning)
  else (limit, false, addWarning)

/-- `should_rate_limit_file`: the limits after the event, its result and `*add_warning`. -/
def shouldRateLimitFile (limits : CountedArray PerSecondLimit maxPidLimits) (pid : Int32)
    (timestampNs : UInt64) : CountedArray PerSecondLimit maxPidLimits × Bool × Bool :=
  let currentSecond := timestampNs / 1000000000
  let limits :=
    if limits.items.any (·.pid = pid) then limits else limits.push ⟨pid, currentSecond, 0, false⟩
  match limits.items.find? (·.pid = pid) with
  | none => (limits, false, false)
  | some limit =>
    let (limit, limited, addWarning) := limit.tick currentSecond
    (limits.set (limits.items.findIdx (·.pid = pid)) limit, limited, addWarning)

/-- `warning_msg`. -/
def rateLimitWarning (addWarning : Bool) : Option String :=
  if addWarning then some "\"rate_limit_warning\":\"Previous second exceeded 30 file limit\""
  else none

/-! ### Counting -/

/-- `hash_file_open`. A `char` is signed. -/
def hashFileOpen (pid : Int32) (filepath : List UInt8) : UInt64 :=
  filepath.foldl (fun hash c => (hash <<< 5) + hash + c.toInt8.toInt64.toUInt64)
    (((5381 : UInt64) <<< 5) + 5381 + pid.toInt64.toUInt64)

/-- The difference of the timestamps wraps for an event older than the entry. -/
def FileHashEntry.expired (timestampNs : UInt64) (h : FileHashEntry) : Bool :=
  timestampNs - h.timestampNs > fileDedupWindowNs

/-- The line of an entry, which the source prints as a made-up event. -/
def FileHashEntry.line (timestampNs : UInt64) (extraFields : String) (h : FileHashEntry) :
    FileOpenLine :=
  { timestampNs, comm := h.comm, pid := h.pid, count := h.count, filepath := h.filepath
    flags := h.flags, extraFields := some extraFields }

/-- The lines of the entries that count more than the open that was printed. -/
def aggregatedLines (timestampNs : UInt64) (extraFields : String) (l : List FileHashEntry) :
    List FileOpenLine :=
  (l.filter fun h => 1 < h.count).map (FileHashEntry.line timestampNs extraFields)

namespace ProcessTracer

def init (env : Env) (tracker : PidTracker) : ProcessTracer :=
  ⟨env, tracker, .empty, .empty, []⟩

def print (t : ProcessTracer) (lines : List Line) : ProcessTracer :=
  { t with printed := t.printed ++ lines }

/-- The loop of `get_file_open_count` that drops the entries whose window is over. -/
def dropExpired (t : ProcessTracer) (timestampNs : UInt64) : ProcessTracer :=
  let (removed, fileHashes) := t.fileHashes.sweep (·.expired timestampNs)
  { t with fileHashes }.print
    ((aggregatedLines timestampNs "\"window_expired\":true" removed).map .fileOpen)

/-- The rest of `get_file_open_count`: the entry of the hash, or a new one. -/
def countOpen (t : ProcessTracer) (e : Event) (op : FileOp) : ProcessTracer × UInt32 :=
  let hash := hashFileOpen e.pid op.filepath.bytes
  match t.fileHashes.items.find? (·.hash = hash) with
  | some h =>
    let h := { h with count := h.count + 1, timestampNs := e.timestampNs }
    let fileHashes := t.fileHashes.set (t.fileHashes.items.findIdx (·.hash = hash)) h
    ({ t with fileHashes }, 0)
  | none =>
    if t.fileHashes.items.length < maxFileHashes then
      let h : FileHashEntry :=
        { hash, timestampNs := e.timestampNs, count := 1, pid := e.pid, comm := e.comm
          filepath := op.filepath, flags := op.flags }
      ({ t with fileHashes := t.fileHashes.push h }, 1)
    else if t.env.verbose then
      (t.print [.fileOpen
        { timestampNs := e.timestampNs, comm := e.comm, pid := e.pid, count := 1
          filepath := op.filepath, flags := op.flags, extraFields := none }], 1)
    else (t, 1)

/-- The returned count is 0 for an event that is not to be printed. -/
def getFileOpenCount (t : ProcessTracer) (e : Event) (op : FileOp) :
    ProcessTracer × UInt32 × Option String :=
  if !op.isOpen then (t, 1, none)
  else
    let (pidLimits, limited, addWarning) := shouldRateLimitFile t.pidLimits e.pid e.timestampNs
    let t := { t with pidLimits }
    if limited then (t, 0, none)
    else
      let (t, count) := (t.dropExpired e.timestampNs).countOpen e op
      (t, count, rateLimitWarning addWarning)

def flushPidFileOpens (t : ProcessTracer) (pid : Int32) (timestampNs : UInt64) : ProcessTracer :=
  let pending := t.fileHashes.items.filter (·.pid = pid)
  let (_, fileHashes) := t.fileHashes.sweep (·.pid = pid)
  { t with fileHashes }.print
    ((aggregatedLines timestampNs "\"reason\":\"process_exit\"" pending).map .fileOpen)

/-- `handle_event`, apart from the copies of the tracked pids and of the aggregation map that
the kernel holds. -/
def handleEvent (t : ProcessTracer) (e : Event) (sid : Int32) : ProcessTracer :=
  match e.body with
  | .exit =>
    let isTracked := pidTrackerIsTracked t.tracker e.pid
    let t := { t with tracker := pidTrackerRemove t.tracker e.pid }
    if !isTracked && t.tracker.filterMode = .filter then t
    else
      let pending := fun limit : PerSecondLimit => limit.pid = e.pid && limit.shouldWarnNext
      let addWarning := t.pidLimits.items.any pending
      let t :=
        if addWarning then
          { t with pidLimits := t.pidLimits.removeAt (t.pidLimits.items.findIdx pending) }
        else t
      let t := t.print [.exit e]
      let t := if addWarning then t.print [.rateLimitWarning e.timestampNs e.pid] else t
      t.flushPidFileOpens e.pid e.timestampNs
  | .exec filename =>
    if shouldTrackEventProcess t.env t.tracker e.comm.bytes e.pid e.ppid sid then
      { t with tracker := (pidTrackerAdd t.tracker e.pid e.ppid).1 }.print [.exec e filename]
    else
      match t.tracker.filterMode with
      | .filter => t
      | .proc =>
        { t with tracker := (pidTrackerAdd t.tracker e.pid e.ppid).1 }.print [.exec e filename]
      | .all => t.print [.exec e filename]
  | .bashReadline command =>
    if !shouldReportBashReadline t.tracker e.pid then t else t.print [.bashReadline e command]
  | .fileOperation op =>
    if !op.isOpen then t
    else if !shouldReportFileOps t.tracker e.pid then t
    else
      let (t, count, warningMsg) := t.getFileOpenCount e op
      if count = 0 then t
      else
        t.print [.fileOpen
          { timestampNs := e.timestampNs, comm := e.comm, pid := e.pid, count
            filepath := op.filepath, flags := op.flags, extraFields := warningMsg }]
  | .unknown type => t.print [.unknown e.timestampNs type]

end ProcessTracer

/-! ### Runs -/

/-- What opens are counted by. -/
abbrev OpenKey := Int32 × CString maxFilenameLen

def FileOpenLine.key (l : FileOpenLine) : OpenKey := (l.pid, l.filepath)

def Line.fileOpen? : Line → Option FileOpenLine
  | .fileOpen l => some l
  | _ => none

namespace ProcessTracer

/-- The `FILE_OPEN` lines printed so far. -/
def opens (t : ProcessTracer) : List FileOpenLine := t.printed.filterMap Line.fileOpen?

/-- The key of an event that is an open, is to be reported and passes the rate limit. -/
def passing (t : ProcessTracer) (e : Event) : Option OpenKey :=
  match e.body with
  | .fileOperation op =>
    if op.isOpen && shouldReportFileOps t.tracker e.pid &&
        !(shouldRateLimitFile t.pidLimits e.pid e.timestampNs).2.1 then
      some (e.pid, op.filepath)
    else none
  | _ => none

/-- No unexpired entry has the hash of the open, and a verbose tracer has room for it. -/
def Fresh (t : ProcessTracer) (timestampNs : UInt64) (key : OpenKey) : Prop :=
  (∀ h ∈ t.fileHashes.items, h.expired timestampNs = false →
    h.hash ≠ hashFileOpen key.1 key.2.bytes) ∧
  (t.env.verbose = true →
    (t.fileHashes.items.filter fun h => !h.expired timestampNs).length < maxFileHashes)

instance (t : ProcessTracer) (timestampNs : UInt64) (key : OpenKey) :
    Decidable (t.Fresh timestampNs key) := inferInstanceAs (Decidable (_ ∧ _))

end ProcessTracer

/-- A tracer, and the keys of the opens that passed the rate limit so far. -/
structure FileOpenRun where
  tracer : ProcessTracer
  opened : List OpenKey

namespace FileOpenRun

def init (env : Env) (tracker : PidTracker) : FileOpenRun := ⟨.init env tracker, []⟩

/-- An event, with what `getsid` returns for its pid. -/
def step (s : FileOpenRun) (a : Event × Int32) : Option FileOpenRun :=
  some ⟨s.tracer.handleEvent a.1 a.2, s.opened ++ (s.tracer.passing a.1).toList⟩

/-- The sum of the counts printed for the key. -/
def printedCount (s : FileOpenRun) (key : OpenKey) : ℕ :=
  total FileOpenLine.key (fun l => l.count.toNat) s.tracer.opens key

/-- The number of opens of the key that passed the rate limit. -/
def openedCount (s : FileOpenRun) (key : OpenKey) : ℕ :=
  total id (fun _ => 1) s.opened key

/-- An open that passes the limit repeats no entry, and is not printed for want of room. -/
def Admits (s : FileOpenRun) (a : Event × Int32) : Prop :=
  ∀ key ∈ s.tracer.passing a.1, s.tracer.Fresh a.1.timestampNs key

instance (s : FileOpenRun) (a : Event × Int32) : Decidable (s.Admits a) :=
  inferInstanceAs (Decidable (∀ key ∈ s.tracer.passing a.1, s.tracer.Fresh a.1.timestampNs key))

end FileOpenRun

/-! ### What an event does to the lines and the table -/

namespace ProcessTracer

variable {t t' : ProcessTracer} {e : Event} {op : FileOp} {sid : Int32} {key : OpenKey}

@[simp] theorem opens_print (t : ProcessTracer) (lines : List Line) :
    (t.print lines).opens = t.opens ++ lines.filterMap Line.fileOpen? := by
  simp [opens, print]

/-- The same table and the same `FILE_OPEN` lines, in the same environment. -/
structure Agrees (t t' : ProcessTracer) : Prop where
  env : t'.env = t.env
  fileHashes : t'.fileHashes = t.fileHashes
  opens : t'.opens = t.opens

theorem Agrees.refl (t : ProcessTracer) : t.Agrees t := ⟨rfl, rfl, rfl⟩

theorem Agrees.print {line : Line} (h : t.Agrees t') (quiet : line.fileOpen? = none) :
    t.Agrees (t'.print [line]) :=
  ⟨h.env, h.fileHashes, by simp [h.opens, quiet]⟩

/-- `handle_event` on an open that passes the limit. -/
def reportOpen (t : ProcessTracer) (e : Event) (op : FileOp) (warningMsg : Option String) :
    ProcessTracer :=
  let (t, count) := (t.dropExpired e.timestampNs).countOpen e op
  if count = 0 then t
  else
    t.print [.fileOpen
      { timestampNs := e.timestampNs, comm := e.comm, pid := e.pid, count
        filepath := op.filepath, flags := op.flags, extraFields := warningMsg }]

/-- An event leaves the table and the lines, flushes a pid, or is an open that passes the
limit. -/
theorem handleEvent_cases (t : ProcessTracer) (e : Event) (sid : Int32) :
    (t.passing e = none ∧ t.Agrees (t.handleEvent e sid)) ∨
    (t.passing e = none ∧ ∃ u, t.Agrees u ∧
      t.handleEvent e sid = u.flushPidFileOpens e.pid e.timestampNs) ∨
    ∃ op u addWarning, t.passing e = some (e.pid, op.filepath) ∧ t.Agrees u ∧
      t.handleEvent e sid = u.reportOpen e op (rateLimitWarning addWarning) := by
  cases hbody : e.body with
  | exec filename =>
    refine .inl ⟨by simp [passing, hbody], ?_⟩
    simp only [handleEvent, hbody]
    split
    · exact Agrees.print ⟨rfl, rfl, rfl⟩ rfl
    · split
      · exact Agrees.refl t
      · exact Agrees.print ⟨rfl, rfl, rfl⟩ rfl
      · exact Agrees.print (Agrees.refl t) rfl
  | exit =>
    have hpassing : t.passing e = none := by simp [passing, hbody]
    simp only [handleEvent, hbody]
    split
    · exact .inl ⟨hpassing, ⟨rfl, rfl, rfl⟩⟩
    · refine .inr (.inl ⟨hpassing, _, ?_, rfl⟩)
      split
      · exact Agrees.print (Agrees.print ⟨rfl, rfl, rfl⟩ rfl) rfl
      · exact Agrees.print ⟨rfl, rfl, rfl⟩ rfl
  | bashReadline command =>
    refine .inl ⟨by simp [passing, hbody], ?_⟩
    simp only [handleEvent, hbody]
    split
    · exact Agrees.refl t
    · exact Agrees.print (Agrees.refl t) rfl
  | unknown type =>
    refine .inl ⟨by simp [passing, hbody], ?_⟩
    simp only [handleEvent, hbody]
    exact Agrees.print (Agrees.refl t) rfl
  | fileOperation op =>
    by_cases hreport : (op.isOpen && shouldReportFileOps t.tracker e.pid) = true
    · obtain ⟨hopen, hops⟩ := Bool.and_eq_true_iff.mp hreport
      by_cases hlimited : (shouldRateLimitFile t.pidLimits e.pid e.timestampNs).2.1 = true
      · refine .inl ⟨by simp [passing, hbody, hlimited], ?_⟩
        simp only [handleEvent, hbody, hopen, hops, getFileOpenCount, hlimited, Bool.not_true,
          Bool.false_eq_true, if_false, if_true]
        exact ⟨rfl, rfl, rfl⟩
      · refine .inr (.inr ⟨op,
          { t with pidLimits := (shouldRateLimitFile t.pidLimits e.pid e.timestampNs).1 },
          (shouldRateLimitFile t.pidLimits e.pid e.timestampNs).2.2, ?_,
          ⟨rfl, rfl, rfl⟩, ?_⟩)
        · simp [passing, hbody, hopen, hops, hlimited]
        · simp only [handleEvent, hbody, hopen, hops, getFileOpenCount, hlimited, Bool.not_true,
            Bool.false_eq_true, if_false, reportOpen]
    · rw [Bool.not_eq_true, Bool.and_eq_false_iff] at hreport
      refine .inl ⟨?_, ?_⟩
      · obtain h | h := hreport <;> simp [passing, hbody, h]
      · obtain h | h := hreport
        · simp only [handleEvent, hbody, h, Bool.not_false, if_true]
          exact Agrees.refl t
        · simp only [handleEvent, hbody, h, Bool.not_false, if_true]
          split <;> exact Agrees.refl t

theorem filterMap_fileOpen (lines : List FileOpenLine) :
    (lines.map Line.fileOpen).filterMap Line.fileOpen? = lines := by
  rw [filterMap_map]
  exact filterMap_some

section

variable (t : ProcessTracer)

theorem opens_dropExpired (timestampNs : UInt64) :
    (t.dropExpired timestampNs).opens = t.opens ++
      aggregatedLines timestampNs "\"window_expired\":true"
        (SwapRemove.sweep (·.expired timestampNs) t.fileHashes.items).1 := by
  simp only [dropExpired, opens_print, filterMap_fileOpen]
  rfl

@[simp] theorem items_dropExpired (timestampNs : UInt64) :
    (t.dropExpired timestampNs).fileHashes.items =
      (SwapRemove.sweep (·.expired timestampNs) t.fileHashes.items).2 := rfl

@[simp] theorem env_dropExpired (timestampNs : UInt64) :
    (t.dropExpired timestampNs).env = t.env := rfl

theorem opens_flushPidFileOpens (pid : Int32) (timestampNs : UInt64) :
    (t.flushPidFileOpens pid timestampNs).opens = t.opens ++
      aggregatedLines timestampNs "\"reason\":\"process_exit\""
        (t.fileHashes.items.filter (·.pid = pid)) := by
  simp only [flushPidFileOpens, opens_print, filterMap_fileOpen]
  rfl

end

/-- What an open that passes the limit does once the expired entries are gone. -/
inductive Reported (u : ProcessTracer) (e : Event) (op : FileOp) (t' : ProcessTracer) : Prop
  /-- It raises the count of the entry of its hash. -/
  | repeated (i : ℕ) (h : FileHashEntry) (found : u.fileHashes.items[i]? = some h)
      (same : h.hash = hashFileOpen e.pid op.filepath.bytes)
      (items : t'.fileHashes.items =
        u.fileHashes.items.set i { h with count := h.count + 1, timestampNs := e.timestampNs })
      (opens : t'.opens = u.opens)
  /-- It is printed once, with a new entry or, in a full table, without one. -/
  | printed (line : FileOpenLine) (key : line.key = (e.pid, op.filepath)) (count : line.count = 1)
      (items : t'.fileHashes.items = u.fileHashes.items ∨ ∃ h : FileHashEntry, h.count = 1 ∧
        t'.fileHashes.items = u.fileHashes.items ++ [h])
      (opens : t'.opens = u.opens ++ [line])
  /-- A verbose tracer whose table is full prints it twice. -/
  | twice (line line' : FileOpenLine) (count : line.count = 1) (count' : line'.count = 1)
      (full : ¬ u.fileHashes.items.length < maxFileHashes) (verbose : u.env.verbose = true)
      (items : t'.fileHashes.items = u.fileHashes.items)
      (opens : t'.opens = u.opens ++ [line, line'])

theorem reportOpen_reported (t : ProcessTracer) (e : Event) (op : FileOp)
    (warningMsg : Option String) :
    Reported (t.dropExpired e.timestampNs) e op (t.reportOpen e op warningMsg) := by
  rw [reportOpen]
  generalize t.dropExpired e.timestampNs = u
  cases hfind : u.fileHashes.items.find? (·.hash = hashFileOpen e.pid op.filepath.bytes) with
  | some h =>
    have hget := hfind
    rw [find?_eq_getElem?_findIdx] at hget
    have hsame : h.hash = hashFileOpen e.pid op.filepath.bytes := by
      simpa using find?_some hfind
    simp only [countOpen, hfind, if_true]
    exact .repeated _ h hget hsame rfl rfl
  | none =>
    by_cases hroom : u.fileHashes.items.length < maxFileHashes
    · simp only [countOpen, hfind, hroom, if_true]
      refine .printed _ ?_ ?_ (.inr ⟨_, ?_, CountedArray.items_push_of_room hroom _⟩)
        (opens_print _ _) <;> rfl
    · by_cases hverbose : u.env.verbose = true
      · simp only [countOpen, hfind, hroom, hverbose, if_true, if_false]
        refine .twice _ _ ?_ ?_ hroom hverbose ?_ (by
          rw [if_neg (by decide), opens_print, opens_print, append_assoc]
          rfl) <;> rfl
      · simp only [countOpen, hfind, hroom, hverbose, if_false]
        refine .printed _ ?_ ?_ (.inl ?_) (opens_print _ _) <;> rfl

end ProcessTracer

/-! ### Runs without repeats -/

theorem aggregatedLines_of_single {l : List FileHashEntry} (single : ∀ h ∈ l, h.count = 1)
    (timestampNs : UInt64) (extraFields : String) :
    aggregatedLines timestampNs extraFields l = [] := by
  have hnone : (l.filter fun h => 1 < h.count) = [] := by
    rw [filter_eq_nil_iff]
    intro h hh
    rw [single h hh]
    decide
  rw [aggregatedLines, hnone, map_nil]

namespace FileOpenRun

variable {s s' : FileOpenRun} {a : Event × Int32}

/-- Every entry counts only the open that was printed, and the counts agree. -/
structure Single (s : FileOpenRun) : Prop where
  single : ∀ h ∈ s.tracer.fileHashes.items, h.count = 1
  conserved : ∀ key, s.printedCount key = s.openedCount key

theorem single_init (env : Env) (tracker : PidTracker) : (init env tracker).Single where
  single := by simp [init, ProcessTracer.init, CountedArray.empty]
  conserved _ := rfl

/-- The counts after a step that prints `lines`. -/
theorem printedCount_append {t : ProcessTracer} {lines : List FileOpenLine}
    (hopens : t.opens = s.tracer.opens ++ lines) (opened : List OpenKey) (key : OpenKey) :
    (FileOpenRun.mk t opened).printedCount key =
      s.printedCount key + total FileOpenLine.key (fun l => l.count.toNat) lines key := by
  rw [printedCount, hopens, total_append]
  rfl

theorem Single.step (h : s.Single) (admits : s.Admits a) (hstep : s.step a = some s') :
    s'.Single := by
  obtain rfl := Option.some_inj.mp hstep
  obtain ⟨hpassing, hagrees⟩ | ⟨hpassing, u, hagrees, heq⟩ |
    ⟨op, u, addWarning, hpassing, hagrees, heq⟩ := s.tracer.handleEvent_cases a.1 a.2
  · refine ⟨by rw [hagrees.fileHashes]; exact h.single, fun key => ?_⟩
    rw [printedCount_append (hagrees.opens.trans (append_nil _).symm)]
    simpa [openedCount, hpassing] using h.conserved key
  · have hsingle : ∀ e ∈ u.fileHashes.items, e.count = 1 := by
      rw [hagrees.fileHashes]
      exact h.single
    refine ⟨fun e he => ?_, fun key => ?_⟩
    · rw [heq] at he
      exact hsingle e ((mem_sweep_left _ _).mp he).1
    · have hopens := u.opens_flushPidFileOpens a.1.pid a.1.timestampNs
      rw [aggregatedLines_of_single fun e he => hsingle e (mem_of_mem_filter he),
        hagrees.opens, ← heq] at hopens
      rw [printedCount_append hopens]
      simpa [openedCount, hpassing] using h.conserved key
  · have hsingle : ∀ e ∈ u.fileHashes.items, e.count = 1 := by
      rw [hagrees.fileHashes]
      exact h.single
    obtain ⟨hfresh, hroom⟩ := admits _ hpassing
    have hleft : ∀ e ∈ (u.dropExpired a.1.timestampNs).fileHashes.items,
        e ∈ u.fileHashes.items ∧ e.expired a.1.timestampNs = false := by
      intro e he
      exact (mem_sweep_left _ _).mp he
    have hdropped := u.opens_dropExpired a.1.timestampNs
    rw [aggregatedLines_of_single fun e he => hsingle e
        ((sweep_perm _ _).subset (mem_append_left _ he)), append_nil, hagrees.opens]
      at hdropped
    obtain ⟨i, e, hget, hsame, -, -⟩ | ⟨line, hkey, hcount, hitems, hopens⟩ |
      ⟨line, line', -, -, hfull, hverbose, -, -⟩ :=
        u.reportOpen_reported a.1 op (rateLimitWarning addWarning)
    · obtain ⟨he, hlive⟩ := hleft e (mem_of_getElem? hget)
      exact absurd hsame (hfresh e (hagrees.fileHashes ▸ he) hlive)
    · refine ⟨fun e he => ?_, fun key => ?_⟩
      · rw [heq] at he
        obtain hitems | ⟨new, hnew, hitems⟩ := hitems
        · exact hsingle e (hleft e (hitems ▸ he)).1
        · rw [hitems, mem_append, mem_singleton] at he
          obtain he | rfl := he
          · exact hsingle e (hleft e he).1
          · exact hnew
      · rw [hdropped, ← heq] at hopens
        rw [printedCount_append hopens, h.conserved key]
        simp [openedCount, hpassing, hkey, hcount]
    · rw [ProcessTracer.env_dropExpired, hagrees.env] at hverbose
      have hlen := hroom hverbose
      have hleft := (sweep_partition (FileHashEntry.expired a.1.timestampNs)
        u.fileHashes.items).2.length_eq
      rw [hagrees.fileHashes] at hleft
      rw [ProcessTracer.items_dropExpired, hagrees.fileHashes, hleft] at hfull
      exact absurd hlen hfull

/-- **File opens are conserved** in every run in which no open that passes the rate limit
finds an unexpired entry of its hash, nor a full table in a verbose tracer: in every state
reached, the counts printed for a pid and path add up to the number of those opens. -/
theorem opens_conserved {env : Env} {tracker : PidTracker}
    (h : Reaches FileOpenRun.step FileOpenRun.Admits (init env tracker) s) (key : OpenKey) :
    s.printedCount key = s.openedCount key :=
  (h.invariant (single_init env tracker) fun _ _ _ hs hok hstep => hs.step hok hstep).conserved key

/-! ### Two runs -/

def shell : CString taskCommLen := ⟨[115, 104], by decide, by decide⟩

def slashA : CString maxFilenameLen := ⟨[47, 97], by decide, by decide⟩

def slashB : CString maxFilenameLen := ⟨[47, 98], by decide, by decide⟩

def shellEvent (timestampNs : UInt64) (body : EventBody) : Event :=
  ⟨7, 1, 0, 0, timestampNs, shell, Vector.replicate maxCommandLen 0, body⟩

def shellOpens (timestampNs : UInt64) (filepath : CString maxFilenameLen) : Event × Int32 :=
  (shellEvent timestampNs (.fileOperation ⟨filepath, 3, 0, true⟩), 1)

def idleTracer : FileOpenRun := init ⟨false, 0⟩ (pidTrackerInit [] .all 0)

/-- Two paths, each of them opened again when its window is over, and the exit. -/
theorem opens_conserved_of_windows :
    ∃ s, Reaches FileOpenRun.step FileOpenRun.Admits idleTracer s ∧
      s.openedCount (7, slashA) = 2 ∧ s.printedCount (7, slashA) = s.openedCount (7, slashA) := by
  obtain ⟨s, hs, hopened⟩ := exists_reaches_of_run
    (Q := fun s : FileOpenRun => s.openedCount (7, slashA) = 2)
    FileOpenRun.step FileOpenRun.Admits idleTracer
    [shellOpens 1 slashA, shellOpens 2 slashB, shellOpens 60000000003 slashA,
      (shellEvent 60000000004 .exit, 1)]
    (by decide)
  exact ⟨s, hs, hopened, opens_conserved hs (7, slashA)⟩

/-- A path opened twice by a process that then exits is printed with the counts 1 and 2. -/
theorem first_open_counted_twice :
    ∃ s, Reaches FileOpenRun.step always idleTracer s ∧ s.tracer.fileHashes.items = [] ∧
      s.openedCount (7, slashA) = 2 ∧ s.printedCount (7, slashA) = 3 :=
  exists_reaches_of_run (Q := fun s : FileOpenRun => s.tracer.fileHashes.items = [] ∧
      s.openedCount (7, slashA) = 2 ∧ s.printedCount (7, slashA) = 3)
    FileOpenRun.step always idleTracer
    [shellOpens 1 slashA, shellOpens 2 slashA, (shellEvent 3 .exit, 1)]
    (by decide)

end FileOpenRun

end AgentSight.Bpf
