import AgentSight.Bpf.TrackedPids

/-!
# The limit on file opens

A pid may open 30 files in a second; `should_rate_limit_file` drops what comes after them, and the
next second of the pid starts with a warning, or its exit does. The opens that pass and the warnings
are kept here beside the tracer, as they should be: `accepted`, the seconds that are `owing` a
warning, and those for which it was `due`. Both halves hold in runs where a pid finds an entry in
the table of limits, the opens of a pid come in the order of their seconds, and the open that should
carry the warning is not the repetition of an earlier one, with which the warning is lost.
-/

namespace AgentSight.Bpf

open SwapRemove Transition List

/-! ### Opens and warnings -/

/-- The pid that a line warns about. -/
def Line.warns : Line → Option Int32
  | .rateLimitWarning _ pid => some pid
  | .fileOpen line => if line.extraFields = Bpf.rateLimitWarning true then some line.pid else none
  | _ => none

def Event.openHash (e : Event) : Option UInt64 :=
  match e.body with
  | .fileOperation op => some (hashFileOpen e.pid op.filepath.bytes)
  | _ => none

namespace ProcessTracer

/-- The pids of the warnings printed so far. -/
def warnings (t : ProcessTracer) : List Int32 := t.printed.filterMap Line.warns

/-- The event is an open that is to be reported, so that the limit judges it. -/
def judges (t : ProcessTracer) (e : Event) : Bool :=
  match e.body with
  | .fileOperation op => op.isOpen && shouldReportFileOps t.tracker e.pid
  | _ => false

/-- The open is dropped. -/
def drops (t : ProcessTracer) (e : Event) : Bool :=
  (shouldRateLimitFile t.pidLimits e.pid e.timestampNs).2.1

/-- No unexpired entry has the hash of the open. -/
def Unrepeated (t : ProcessTracer) (e : Event) : Prop :=
  ∀ h ∈ t.fileHashes.items, h.expired e.timestampNs = false → some h.hash ≠ e.openHash

instance (t : ProcessTracer) : DecidablePred t.Unrepeated := fun e =>
  inferInstanceAs (Decidable
    (∀ h ∈ t.fileHashes.items, h.expired e.timestampNs = false → some h.hash ≠ e.openHash))

end ProcessTracer

/-- A pid and a second. -/
abbrev Bucket := Int32 × UInt64

def Event.bucket (e : Event) : Bucket := (e.pid, e.timestampNs / 1000000000)

/-- A tracer, and what the limit is for. -/
structure RateRun where
  tracer : ProcessTracer
  /-- The buckets of the opens that passed. -/
  accepted : List Bucket
  /-- The buckets with dropped opens that no warning was due for so far. -/
  owing : List Bucket
  /-- The buckets that a warning was due for. -/
  due : List Bucket

namespace RateRun

def init (env : Env) (tracker : PidTracker) : RateRun := ⟨.init env tracker, [], [], []⟩

/-- A bucket is owing from its first dropped open to the next open of its pid in a later second
that passes, or to the exit of the pid. -/
def step (s : RateRun) (a : Event × Int32) : Option RateRun :=
  let e := a.1
  let tracer := s.tracer.handleEvent e a.2
  let later : Bucket → Bool := fun b => b.1 = e.pid && b.2 < e.bucket.2
  if s.tracer.judges e then
    if s.tracer.drops e then some { s with tracer, owing := s.owing.insert e.bucket }
    else
      some
        { tracer
          accepted := s.accepted ++ [e.bucket]
          owing := s.owing.filter (!later ·)
          due := s.due ++ s.owing.filter later }
  else
    match e.body with
    | .exit =>
      some
        { tracer
          accepted := s.accepted
          owing := s.owing.filter (·.1 ≠ e.pid)
          due := s.due ++ s.owing.filter (·.1 = e.pid) }
    | _ => some { s with tracer }

/-- The pid of an open has an entry or room for one, whose count is not about to wrap. No open of
the pid passed in a later second, nor in this one before its entry was given up. An open for which a
warning is due repeats none. -/
def Steady (s : RateRun) (a : Event × Int32) : Prop :=
  let e := a.1
  let limits := s.tracer.pidLimits.items
  s.tracer.judges e = true →
    ((∃ limit ∈ limits, limit.pid = e.pid) ∨ limits.length < maxPidLimits) ∧
    (∀ limit ∈ limits, limit.pid = e.pid → limit.distinctFileCount.toNat + 1 < 2 ^ 32) ∧
    (∀ b ∈ s.accepted, b.1 = e.pid → b.2 ≤ e.bucket.2) ∧
    ((∀ limit ∈ limits, limit.pid ≠ e.pid) → e.bucket ∉ s.accepted) ∧
    ((∃ b ∈ s.owing, b.1 = e.pid ∧ b.2 < e.bucket.2) → s.tracer.Unrepeated e)

instance (s : RateRun) : DecidablePred s.Steady := fun _ =>
  inferInstanceAs (Decidable (_ → _ ∧ _ ∧ _ ∧ _ ∧ _))

end RateRun

/-! ### What an event does to the limits and the warnings -/

namespace ProcessTracer

variable (t : ProcessTracer) (e : Event) (sid : Int32)

@[simp] theorem warnings_print (lines : List Line) :
    (t.print lines).warnings = t.warnings ++ lines.filterMap Line.warns := by
  simp [warnings, print]

/-- The lines of entries warn of nothing. -/
theorem warns_aggregatedLines (timestampNs : UInt64) {extraFields : String}
    (hextra : some extraFields ≠ rateLimitWarning true) (l : List FileHashEntry) :
    ((aggregatedLines timestampNs extraFields l).map Line.fileOpen).filterMap Line.warns = [] := by
  rw [filterMap_eq_nil_iff]
  intro line hline
  obtain ⟨open', hopen, rfl⟩ := mem_map.mp hline
  obtain ⟨h, -, rfl⟩ := mem_map.mp hopen
  exact if_neg hextra

theorem warnings_dropExpired (timestampNs : UInt64) :
    (t.dropExpired timestampNs).warnings = t.warnings := by
  have hquiet := @warns_aggregatedLines timestampNs "\"window_expired\":true" (by decide)
    (t.fileHashes.sweep (·.expired timestampNs)).1
  unfold dropExpired
  rw [warnings_print, hquiet, append_nil]
  rfl

theorem warnings_flushPidFileOpens (pid : Int32) (timestampNs : UInt64) :
    (t.flushPidFileOpens pid timestampNs).warnings = t.warnings := by
  have hquiet := @warns_aggregatedLines timestampNs "\"reason\":\"process_exit\"" (by decide)
    (t.fileHashes.items.filter (·.pid = pid))
  unfold flushPidFileOpens
  rw [warnings_print, hquiet, append_nil]
  rfl

/-- The entry of the pid that is to warn. -/
def pendingLimit (limit : PerSecondLimit) : Bool := limit.pid = e.pid && limit.shouldWarnNext

/-- The exit of a pid that is not followed is passed over. -/
def passesOver : Bool :=
  !pidTrackerIsTracked t.tracker e.pid && (pidTrackerRemove t.tracker e.pid).filterMode = .filter

variable {t e}

theorem handleEvent_exit (hbody : e.body = .exit) : (t.handleEvent e sid).pidLimits =
        (if !t.passesOver e && t.pidLimits.items.any (pendingLimit e) then
          t.pidLimits.removeAt (t.pidLimits.items.findIdx (pendingLimit e))
        else t.pidLimits) ∧
      (t.handleEvent e sid).warnings =
        (if !t.passesOver e && t.pidLimits.items.any (pendingLimit e) then t.warnings ++ [e.pid]
        else t.warnings) := by
  simp only [handleEvent, hbody]
  by_cases hover : t.passesOver e = true
  · have hcond := hover
    unfold passesOver at hcond
    rw [if_pos hcond, hover]
    exact ⟨rfl, rfl⟩
  · have hcond := hover
    unfold passesOver at hcond
    rw [if_neg hcond, Bool.eq_false_of_not_eq_true hover, Bool.not_false, Bool.true_and]
    by_cases hpending : t.pidLimits.items.any (pendingLimit e) = true
    · have hsame := hpending
      unfold pendingLimit at hsame
      simp only [if_pos hsame, if_pos hpending, warnings_flushPidFileOpens, warnings_print]
      exact ⟨rfl, by simp [warnings, Line.warns]⟩
    · have hsame := hpending
      unfold pendingLimit at hsame
      simp only [if_neg hsame, if_neg hpending, warnings_flushPidFileOpens, warnings_print]
      exact ⟨rfl, by simp [warnings, Line.warns]⟩

theorem pidLimits_countOpen (op : FileOp) : (t.countOpen e op).1.pidLimits = t.pidLimits := by
  unfold countOpen
  dsimp only
  repeat' split
  all_goals rfl

/-- Counting an open prints no warning, and skips it exactly if it repeats one. -/
theorem warnings_countOpen (op : FileOp) :
    (t.countOpen e op).1.warnings = t.warnings ∧ ((t.countOpen e op).2 = 0 ↔
        ∃ h ∈ t.fileHashes.items, h.hash = hashFileOpen e.pid op.filepath.bytes) := by
  have hnone (hfind : t.fileHashes.items.find? (·.hash = hashFileOpen e.pid op.filepath.bytes) =
      none) : ¬ ∃ h ∈ t.fileHashes.items, h.hash = hashFileOpen e.pid op.filepath.bytes := by
    rintro ⟨h, hmem, hsame⟩
    exact find?_eq_none.mp hfind h hmem (by simpa using hsame)
  have hone : (1 : UInt32) ≠ 0 := by decide
  unfold countOpen
  dsimp only
  split
  · next h hfind =>
    refine ⟨rfl, iff_of_true rfl ⟨h, mem_of_find?_eq_some hfind, ?_⟩⟩
    simpa using find?_some hfind
  · next hfind =>
    split
    · exact ⟨rfl, iff_of_false hone (hnone hfind)⟩
    · split
      · refine ⟨?_, iff_of_false hone (hnone hfind)⟩
        rw [warnings_print]
        exact append_nil _
      · exact ⟨rfl, iff_of_false hone (hnone hfind)⟩

theorem body_of_judges (t : ProcessTracer) (hjudges : t.judges e = true) : e.body ≠ .exit := by
  intro hbody
  simp [judges, hbody] at hjudges

theorem handleEvent_open (hjudges : t.judges e = true) :
    (t.handleEvent e sid).pidLimits = (shouldRateLimitFile t.pidLimits e.pid e.timestampNs).1 ∧
      (t.drops e = true → (t.handleEvent e sid).warnings = t.warnings) ∧
      (t.drops e = false → (shouldRateLimitFile t.pidLimits e.pid e.timestampNs).2.2 = false →
        (t.handleEvent e sid).warnings = t.warnings) ∧
      (t.drops e = false → (shouldRateLimitFile t.pidLimits e.pid e.timestampNs).2.2 = true →
        t.Unrepeated e → (t.handleEvent e sid).warnings = t.warnings ++ [e.pid]) := by
  cases hbody : e.body with
  | fileOperation op =>
    simp only [judges, hbody, Bool.and_eq_true] at hjudges
    obtain ⟨hopen, hreport⟩ := hjudges
    set limits := shouldRateLimitFile t.pidLimits e.pid e.timestampNs with hlimits
    simp only [handleEvent, hbody, hopen, hreport, Bool.not_true, Bool.false_eq_true, if_false,
      getFileOpenCount, ← hlimits, drops]
    cases hdrop : limits.2.1 with
    | true => simp [warnings]
    | false =>
      simp only [Bool.false_eq_true, if_false, false_implies, true_implies, true_and]
      set u := { t with pidLimits := limits.1 }.dropExpired e.timestampNs with hu
      have hwarnings : u.warnings = t.warnings := warnings_dropExpired _ _
      have hpidLimits : u.pidLimits = limits.1 := rfl
      obtain ⟨hcounted, hskip⟩ := warnings_countOpen (t := u) (e := e) op
      have hkept := pidLimits_countOpen (t := u) (e := e) op
      refine ⟨?_, fun hadd => ?_, fun hadd hnew => ?_⟩
      · split
        · exact hkept.trans hpidLimits
        · exact hkept.trans hpidLimits
      · rw [hadd]
        split
        · exact hcounted.trans hwarnings
        · rw [warnings_print, hcounted, hwarnings]
          exact append_nil _
      · have hcount : (u.countOpen e op).2 ≠ 0 := by
          rw [ne_eq, hskip]
          rintro ⟨h, hmem, hsame⟩
          obtain ⟨hold, hlive⟩ := (mem_sweep_left _ _).mp hmem
          refine hnew h hold hlive ?_
          rw [Event.openHash, hbody, hsame]
        rw [if_neg hcount, warnings_print, hcounted, hwarnings, hadd]
        rfl
  | _ => simp [judges, hbody] at hjudges

theorem handleEvent_other (hjudges : t.judges e = false) (hbody : e.body ≠ .exit) :
    (t.handleEvent e sid).pidLimits = t.pidLimits ∧
      (t.handleEvent e sid).warnings = t.warnings := by
  have hquiet line (hline : line.warns = none) :
      (t.print [line]).warnings = t.warnings := by
    simp [hline]
  cases hcase : e.body with
  | exit => exact absurd hcase hbody
  | exec filename =>
    simp only [handleEvent, hcase]
    split
    · exact ⟨rfl, by rw [warnings_print]; exact append_nil _⟩
    · split
      · exact ⟨rfl, rfl⟩
      · exact ⟨rfl, by rw [warnings_print]; exact append_nil _⟩
      · exact ⟨rfl, hquiet _ rfl⟩
  | bashReadline command =>
    simp only [handleEvent, hcase]
    split
    · exact ⟨rfl, rfl⟩
    · exact ⟨rfl, hquiet _ rfl⟩
  | unknown type =>
    simp only [handleEvent, hcase]
    exact ⟨rfl, hquiet _ rfl⟩
  | fileOperation op =>
    simp only [judges, hcase, Bool.and_eq_false_iff] at hjudges
    simp only [handleEvent, hcase]
    split
    · exact ⟨rfl, rfl⟩
    · next hopen =>
      have hreport : shouldReportFileOps t.tracker e.pid = false := by
        rcases hjudges with hclosed | hreport
        · exact absurd hclosed (by simpa using hopen)
        · exact hreport
      rw [hreport]
      exact ⟨rfl, rfl⟩

end ProcessTracer

/-! ### The entry of a pid -/

section Entries

variable {limits : CountedArray PerSecondLimit maxPidLimits} {pid : Int32} {timestampNs : UInt64}

/-- What is found is put in front of the rest of the list. -/
theorem perm_cons_of_find {α : Type*} {p : α → Bool} {l : List α} {a : α} (h : l.find? p = some a) :
    ∃ rest, l.Perm (a :: rest) ∧ ∀ b, (l.set (l.findIdx p) b).Perm (b :: rest) := by
  rw [find?_eq_getElem?_findIdx] at h
  obtain ⟨hlt, rfl⟩ := List.getElem?_eq_some_iff.mp h
  exact ⟨l.eraseIdx (l.findIdx p), (getElem_cons_eraseIdx_perm hlt).symm,
    fun b => set_perm_cons_eraseIdx hlt b⟩

/-- An open is judged by the entry of its pid, or by a new one. -/
theorem shouldRateLimitFile_cases
    (hroom : (∃ limit ∈ limits.items, limit.pid = pid) ∨ limits.items.length < maxPidLimits) :
    ∃ limit rest, limit.pid = pid ∧
      (limits.items.Perm (limit :: rest) ∨ (∀ other ∈ limits.items, other.pid ≠ pid) ∧
          limit = ⟨pid, timestampNs / 1000000000, 0, false⟩ ∧ limits.items.Perm rest) ∧
      (shouldRateLimitFile limits pid timestampNs).1.items.Perm
        ((limit.tick (timestampNs / 1000000000)).1 :: rest) ∧
      (shouldRateLimitFile limits pid timestampNs).2 =
        (limit.tick (timestampNs / 1000000000)).2 := by
  by_cases hany : limits.items.any (·.pid = pid) = true
  · cases hfind : limits.items.find? (·.pid = pid) with
    | none =>
      obtain ⟨limit, hmem, hpid⟩ := any_eq_true.mp hany
      exact absurd hpid (find?_eq_none.mp hfind limit hmem)
    | some limit =>
      obtain ⟨rest, hperm, hset⟩ := perm_cons_of_find hfind
      have hpid : limit.pid = pid := by simpa using find?_some hfind
      refine ⟨limit, rest, hpid, .inl hperm, ?_, ?_⟩
      · simp only [shouldRateLimitFile, if_pos hany, hfind]
        exact hset _
      · simp only [shouldRateLimitFile, if_pos hany, hfind]
  · have hnone : ∀ other ∈ limits.items, other.pid ≠ pid := by
      intro other hmem heq
      exact hany (any_eq_true.mpr ⟨other, hmem, by simpa using heq⟩)
    have hlt : limits.items.length < maxPidLimits := by
      rcases hroom with ⟨limit, hmem, hpid⟩ | hlt
      · exact absurd hpid (hnone limit hmem)
      · exact hlt
    set fresh : PerSecondLimit := ⟨pid, timestampNs / 1000000000, 0, false⟩ with hfresh
    have hitems : (limits.push fresh).items = limits.items ++ [fresh] :=
      CountedArray.items_push_of_room hlt fresh
    have hfind : (limits.push fresh).items.find? (·.pid = pid) = some fresh := by
      rw [hitems, find?_append, find?_eq_none.mpr (by simpa using hnone)]
      simp [hfresh]
    obtain ⟨rest, hperm, hset⟩ := perm_cons_of_find hfind
    have hrest : limits.items.Perm rest := by
      rw [hitems] at hperm
      exact ((perm_append_singleton fresh _).symm.trans hperm).cons_inv
    refine ⟨fresh, rest, rfl, .inr ⟨hnone, rfl, hrest⟩, ?_, ?_⟩
    · simp only [shouldRateLimitFile, if_neg hany, hfind, ← hfresh]
      exact hset _
    · simp only [shouldRateLimitFile, if_neg hany, hfind, ← hfresh]

end Entries

/-! ### The ledger -/

variable {limit : PerSecondLimit}

/-- In the second of the entry, the count goes up and decides. -/
theorem PerSecondLimit.tick_again {second : UInt64}
    (hsecond : limit.currentSecond = second) (hcount : limit.distinctFileCount.toNat + 1 < 2 ^ 32) :
    ∃ count, count.toNat = limit.distinctFileCount.toNat + 1 ∧ limit.tick second =
        if 30 < count.toNat then
          ({ limit with distinctFileCount := count, shouldWarnNext := true }, true, false)
        else ({ limit with distinctFileCount := count }, false, false) := by
  refine ⟨limit.distinctFileCount + 1, ?_, ?_⟩
  · exact Nat.mod_eq_of_lt hcount
  · have hgt count : count > maxDistinctFilesPerSec ↔ 30 < count.toNat :=
      UInt32.lt_iff_toNat_lt
    simp [PerSecondLimit.tick, hsecond, hgt]

/-- Another second starts with an open that passes. -/
theorem PerSecondLimit.tick_next {second : UInt64} (hsecond : limit.currentSecond ≠ second) :
    limit.tick second = (⟨limit.pid, second, 1, false⟩, false, limit.shouldWarnNext) := by
  simp [PerSecondLimit.tick, hsecond]
  decide

/-- What an entry says of the buckets of its pid. -/
structure Tells (accepted owing due : List Bucket) (limit : PerSecondLimit) : Prop where
  positive : 0 < limit.distinctFileCount.toNat
  counted : accepted.count (limit.pid, limit.currentSecond) = min limit.distinctFileCount.toNat 30
  latest : ∀ b ∈ accepted, b.1 = limit.pid → b.2 ≤ limit.currentSecond
  warns : limit.shouldWarnNext = true ↔ 30 < limit.distinctFileCount.toNat
  owes : limit.shouldWarnNext = true ↔ (limit.pid, limit.currentSecond) ∈ owing
  settled : ∀ b ∈ due, b.1 = limit.pid → b.2 < limit.currentSecond

/-- The entries agree with the buckets, and each bucket is within its limit and owes one warning
at most. -/
structure Ledger (limits : List PerSecondLimit) (accepted owing due : List Bucket) : Prop where
  keys : (limits.map PerSecondLimit.pid).Nodup
  tells : ∀ limit ∈ limits, Tells accepted owing due limit
  entry : ∀ b ∈ owing, ∃ limit ∈ limits, (limit.pid, limit.currentSecond) = b
  once : (due ++ owing).Nodup
  bounded : ∀ b, accepted.count b ≤ 30
  passed : ∀ b ∈ due, b ∈ accepted

section Ledger

variable {accepted owing due accepted' owing' due' : List Bucket} {limit limit' : PerSecondLimit}
  {limits limits' rest : List PerSecondLimit} {pid : Int32} {second : UInt64}

/-- The buckets of other pids are as they were. -/
structure SameBut (pid : Int32) (accepted owing due accepted' owing' due' : List Bucket) :
    Prop where
  accepted : ∀ b : Bucket, b.1 ≠ pid → accepted'.count b = accepted.count b
  owing : ∀ b : Bucket, b.1 ≠ pid → (b ∈ owing' ↔ b ∈ owing)
  due : ∀ b : Bucket, b.1 ≠ pid → (b ∈ due' ↔ b ∈ due)

theorem Tells.mem_accepted (h : Tells accepted owing due limit) :
    (limit.pid, limit.currentSecond) ∈ accepted := by
  have hcounted := h.counted
  have hpositive := h.positive
  refine count_pos_iff.mp ?_
  omega

theorem Tells.frame (h : Tells accepted owing due limit)
    (hsame : SameBut pid accepted owing due accepted' owing' due') (hpid : limit.pid ≠ pid) :
    Tells accepted' owing' due' limit where
  positive := h.positive
  counted := (hsame.accepted _ hpid).trans h.counted
  latest := by
    intro b hb heq
    have hne : b.1 ≠ pid := heq ▸ hpid
    refine h.latest b (count_pos_iff.mp ?_) heq
    rw [← hsame.accepted b hne]
    exact count_pos_iff.mpr hb
  warns := h.warns
  owes := h.owes.trans (hsame.owing _ hpid).symm
  settled := by
    intro b hb heq
    exact h.settled b ((hsame.due b (heq ▸ hpid)).mp hb) heq

section

variable (h : Ledger limits accepted owing due)
include h

theorem Ledger.perm (hperm : limits.Perm limits') :
    Ledger limits' accepted owing due where
  keys := (hperm.map _).nodup_iff.mp h.keys
  tells := fun limit hlimit => h.tells limit (hperm.mem_iff.mpr hlimit)
  entry := by
    intro b hb
    obtain ⟨limit, hlimit, heq⟩ := h.entry b hb
    exact ⟨limit, hperm.mem_iff.mp hlimit, heq⟩
  once := h.once
  bounded := h.bounded
  passed := h.passed

theorem Ledger.owing_passed : ∀ b ∈ owing, b ∈ accepted := by
  intro b hb
  obtain ⟨limit, hlimit, rfl⟩ := h.entry b hb
  exact (h.tells limit hlimit).mem_accepted

/-- An entry is written where the buckets of its pid have changed. -/
theorem Ledger.replace
    (hrest : ∀ other ∈ limits, other.pid ≠ limit'.pid → other ∈ rest)
    (hsub : ∀ other ∈ rest, other ∈ limits)
    (hkeys : ((limit' :: rest).map PerSecondLimit.pid).Nodup)
    (hsame : SameBut limit'.pid accepted owing due accepted' owing' due')
    (htells : Tells accepted' owing' due' limit')
    (howing : ∀ b ∈ owing', b.1 = limit'.pid → b.2 = limit'.currentSecond)
    (honce : (due' ++ owing').Nodup)
    (hbounded : ∀ b : Bucket, b.1 = limit'.pid → accepted'.count b ≤ 30)
    (hpassed : ∀ b ∈ due', b ∈ accepted') : Ledger (limit' :: rest) accepted' owing' due' where
  keys := hkeys
  tells := by
    refine forall_mem_cons.mpr ⟨htells, fun other hother => ?_⟩
    refine (h.tells other (hsub other hother)).frame hsame ?_
    rintro heq
    rw [map_cons, nodup_cons] at hkeys
    exact hkeys.1 (heq ▸ mem_map_of_mem hother)
  entry := by
    intro b hb
    by_cases hpid : b.1 = limit'.pid
    · exact ⟨limit', mem_cons_self, Prod.ext hpid.symm (howing b hb hpid).symm⟩
    · obtain ⟨other, hother, rfl⟩ := h.entry b ((hsame.owing b hpid).mp hb)
      exact ⟨other, mem_cons_of_mem _ (hrest other hother hpid), rfl⟩
  once := honce
  bounded := by
    intro b
    by_cases hpid : b.1 = limit'.pid
    · exact hbounded b hpid
    · rw [hsame.accepted b hpid]
      exact h.bounded b
  passed := hpassed

end

/-- The buckets of a pid that owe a warning: the second of its entry, if that is to warn. -/
theorem Ledger.owing_of_pid (h : Ledger (limit :: rest) accepted owing due) {b : Bucket}
    (hb : b ∈ owing) (hpid : b.1 = limit.pid) : b = (limit.pid, limit.currentSecond) := by
  obtain ⟨other, hother, rfl⟩ := h.entry b hb
  rcases mem_cons.mp hother with rfl | hother
  · rfl
  · have hkeys := h.keys
    rw [map_cons, nodup_cons] at hkeys
    exact absurd (hpid ▸ mem_map_of_mem hother) hkeys.1

theorem mem_rest_of_ne (other : PerSecondLimit) (hother : other ∈ limit :: rest)
    (hne : other.pid ≠ limit.pid) : other ∈ rest := by
  rcases mem_cons.mp hother with rfl | hother
  · exact absurd rfl hne
  · exact hother

/-- An open is dropped. -/
theorem Ledger.drop (h : Ledger (limit :: rest) accepted owing due) {count : UInt32}
    (hcount : count.toNat = limit.distinctFileCount.toNat + 1) (hover : 30 < count.toNat) :
    Ledger ({ limit with distinctFileCount := count, shouldWarnNext := true } :: rest) accepted
      (owing.insert (limit.pid, limit.currentSecond)) due := by
  have htells := h.tells limit mem_cons_self
  have hfresh : (limit.pid, limit.currentSecond) ∉ due := fun hmem =>
    UInt64.lt_irrefl _ (htells.settled _ hmem rfl)
  refine h.replace mem_rest_of_ne (fun _ => mem_cons_of_mem _) h.keys
    ⟨fun _ _ => rfl, fun b hb => ?_, fun _ _ => Iff.rfl⟩ ⟨Nat.zero_lt_of_lt hover, ?_,
      htells.latest, iff_of_true rfl hover, iff_of_true rfl mem_insert_self, htells.settled⟩
    ?_ ?_ (fun b _ => h.bounded b) h.passed
  · rw [mem_insert_iff]
    refine or_iff_right ?_
    rintro rfl
    exact hb rfl
  · have hcounted := htells.counted
    dsimp only
    omega
  · intro b hb hpid
    rcases mem_insert_iff.mp hb with rfl | hb
    · rfl
    · rw [h.owing_of_pid hb hpid]
  · by_cases hmem : (limit.pid, limit.currentSecond) ∈ owing
    · rw [insert_of_mem hmem]
      exact h.once
    · rw [insert_of_not_mem hmem]
      refine perm_middle.nodup_iff.mpr (nodup_cons.mpr ⟨?_, h.once⟩)
      rw [mem_append]
      exact not_or.mpr ⟨hfresh, hmem⟩

/-- An open passes in the second of its entry. -/
theorem Ledger.pass (h : Ledger (limit :: rest) accepted owing due) {count : UInt32}
    (hcount : count.toNat = limit.distinctFileCount.toNat + 1) (hwithin : ¬ 30 < count.toNat) :
    Ledger ({ limit with distinctFileCount := count } :: rest)
      (accepted ++ [(limit.pid, limit.currentSecond)]) owing due := by
  have htells := h.tells limit mem_cons_self
  have hcounted := htells.counted
  have hbucket : (accepted ++ [(limit.pid, limit.currentSecond)]).count
      (limit.pid, limit.currentSecond) = min count.toNat 30 := by
    rw [count_append, count_singleton_self]
    omega
  refine h.replace mem_rest_of_ne (fun _ => mem_cons_of_mem _) h.keys
    ⟨fun b hb => ?_, fun _ _ => Iff.rfl, fun _ _ => Iff.rfl⟩
    ⟨by dsimp only; omega, hbucket, ?_, ?_, htells.owes, htells.settled⟩ ?_ h.once ?_ ?_
  · have hne : (limit.pid, limit.currentSecond) ≠ b := fun heq => hb (heq ▸ rfl)
    simp [count_append, hne]
  · intro b hb hpid
    rcases mem_append.mp hb with hb | hb
    · exact htells.latest b hb hpid
    · rw [mem_singleton.mp hb]
      exact UInt64.le_refl _
  · refine htells.warns.trans (iff_of_false ?_ hwithin)
    omega
  · intro b hb hpid
    rw [h.owing_of_pid hb hpid]
  · intro b _
    by_cases heq : (limit.pid, limit.currentSecond) = b
    · rw [← heq]
      omega
    · have hbounded := h.bounded b
      simpa [heq] using hbounded
  · intro b hb
    exact mem_append_left _ (h.passed b hb)

/-- An open passes in a second that is new to its pid. -/
theorem Ledger.next (h : Ledger limits accepted owing due)
    (hrest : ∀ other ∈ limits, other.pid ≠ pid → other ∈ rest)
    (hsub : ∀ other ∈ rest, other ∈ limits) (hkeys : (pid :: rest.map PerSecondLimit.pid).Nodup)
    (hnew : ∀ b ∈ accepted, b.1 = pid → b.2 < second) :
    Ledger (⟨pid, second, 1, false⟩ :: rest) (accepted ++ [(pid, second)])
      (owing.filter fun b => !(b.1 = pid && b.2 < second))
      (due ++ owing.filter fun b => b.1 = pid && b.2 < second) := by
  have hnone : (pid, second) ∉ accepted := fun hmem => UInt64.lt_irrefl _ (hnew _ hmem rfl)
  have howed : ∀ b ∈ due ++ owing.filter (fun b => b.1 = pid && b.2 < second), b ∈ accepted := by
    intro b hb
    rcases mem_append.mp hb with hb | hb
    · exact h.passed b hb
    · exact h.owing_passed b (mem_of_mem_filter hb)
  have hleft : ∀ b ∈ owing.filter (fun b => !(b.1 = pid && b.2 < second)), b.1 ≠ pid := by
    intro b hb hpid
    obtain ⟨hb, hlate⟩ := mem_filter.mp hb
    have hlt := hnew b (h.owing_passed b hb) hpid
    simp [hpid, hlt] at hlate
  have hone : 0 < (1 : UInt32).toNat ∧ ¬ 30 < (1 : UInt32).toNat := by decide
  have hbucket : (accepted ++ [(pid, second)]).count (pid, second) = 1 := by
    rw [count_append, count_singleton_self, count_eq_zero_of_not_mem hnone]
  refine h.replace hrest hsub hkeys ⟨fun b hb => ?_, fun b hb => ?_, fun b hb => ?_⟩
    ⟨hone.1, hbucket, ?_, iff_of_false nofun hone.2, iff_of_false nofun ?_, ?_⟩ ?_ ?_ ?_ ?_
  · have hne : (pid, second) ≠ b := fun heq => hb (heq ▸ rfl)
    simp [count_append, hne]
  · have hne : b.1 ≠ pid := hb
    simp [mem_filter, hne]
  · have hne : b.1 ≠ pid := hb
    simp [mem_filter, hne]
  · intro b hb hpid
    rcases mem_append.mp hb with hb | hb
    · exact UInt64.le_of_lt (hnew b hb hpid)
    · rw [mem_singleton.mp hb]
      exact UInt64.le_refl _
  · intro hmem
    exact hleft _ hmem rfl
  · intro b hb hpid
    exact hnew b (howed b hb) hpid
  · intro b hb hpid
    exact absurd hpid (hleft b hb)
  · rw [append_assoc]
    refine (Perm.append_left due ?_).nodup_iff.mpr h.once
    exact filter_append_perm _ owing
  · intro b _
    by_cases heq : (pid, second) = b
    · rw [← heq, hbucket]
      decide
    · have hbounded := h.bounded b
      simpa [heq] using hbounded
  · intro b hb
    exact mem_append_left _ (howed b hb)

/-- The exit of a pid settles what it owes and gives its entry up. -/
theorem Ledger.exit (h : Ledger (limit :: rest) accepted owing due) :
    Ledger rest accepted (owing.filter (·.1 ≠ limit.pid))
      (due ++ owing.filter (·.1 = limit.pid)) := by
  have hkeys := h.keys
  rw [map_cons, nodup_cons] at hkeys
  have hne : ∀ other ∈ rest, other.pid ≠ limit.pid := fun other hother heq =>
    hkeys.1 (heq ▸ mem_map_of_mem hother)
  refine ⟨hkeys.2, fun other hother => ?_, fun b hb => ?_, ?_, h.bounded, fun b hb => ?_⟩
  · refine (h.tells other (mem_cons_of_mem _ hother)).frame
      ⟨fun _ _ => rfl, fun b hb => ?_, fun b hb => ?_⟩ (hne other hother)
    · simp [mem_filter, hb]
    · simp [mem_filter, hb]
  · obtain ⟨hb, hpid⟩ := mem_filter.mp hb
    obtain ⟨other, hother, rfl⟩ := h.entry b hb
    exact ⟨other, mem_rest_of_ne other hother (by simpa using hpid), rfl⟩
  · rw [append_assoc]
    refine (Perm.append_left due ?_).nodup_iff.mpr h.once
    have hperm := filter_append_perm (fun b : Bucket => decide (b.1 = limit.pid)) owing
    simpa using hperm
  · rcases mem_append.mp hb with hb | hb
    · exact h.passed b hb
    · exact h.owing_passed b (mem_of_mem_filter hb)

end Ledger

variable {tracker : PidTracker}

/-! ### The pids that are followed -/

section Followed

variable {t : ProcessTracer} {e : Event} {S : PidSet}

theorem filterMode_pidTrackerAdd (tracker : PidTracker) (pid ppid : Int32) :
    (pidTrackerAdd tracker pid ppid).1.filterMode = tracker.filterMode := by
  have hfill i fuel :
      (pidTrackerFillFrom tracker pid ppid i fuel).1.filterMode = tracker.filterMode := by
    induction fuel generalizing i with
    | zero => rfl
    | succ fuel ih =>
      simp only [pidTrackerFillFrom]
      split
      · rfl
      · exact ih (i + 1)
  unfold pidTrackerAdd
  split
  · rfl
  · exact hfill 0 _

theorem filterMode_pidTrackerRemove (tracker : PidTracker) (pid : Int32) :
    (pidTrackerRemove tracker pid).filterMode = tracker.filterMode := by
  have hrehash idx n fuel tracker :
      (pidTrackerRehashFrom tracker idx n fuel).filterMode = tracker.filterMode := by
    induction fuel generalizing n tracker with
    | zero => rfl
    | succ fuel ih =>
      simp only [pidTrackerRehashFrom]
      split
      · rfl
      · rw [ih]
        split
        · exact filterMode_pidTrackerAdd _ _ _
        · rfl
  have hremove i fuel :
      (pidTrackerRemoveFrom tracker pid i fuel).filterMode = tracker.filterMode := by
    induction fuel generalizing i with
    | zero => rfl
    | succ fuel ih =>
      simp only [pidTrackerRemoveFrom]
      split
      · rfl
      · split
        · exact ih (i + 1)
        · exact hrehash _ _ _ _
  exact hremove 0 _

/-- The tracker follows the pids, in filter mode also each pid that owes a warning. -/
def Follows (tracker : PidTracker) (owing : List Bucket) : Prop :=
  ∃ S, Simulates tracker S ∧ (tracker.filterMode = .filter → ∀ b ∈ owing, b.1 ∈ S.pids)

variable {owing owing' : List Bucket} {sid : Int32}

theorem Follows.add (h : Follows tracker owing) (pid ppid : Int32) :
    Follows (pidTrackerAdd tracker pid ppid).1 owing := by
  obtain ⟨S, hsimulates, hfollows⟩ := h
  refine ⟨(S.add pid).1, (hsimulates.add pid ppid).1, fun hmode b hb => ?_⟩
  rw [filterMode_pidTrackerAdd] at hmode
  have hold := hfollows hmode b hb
  unfold PidSet.add
  split
  · exact hold
  · split
    · exact Finset.mem_insert_of_mem hold
    · exact hold

theorem pidTrackerInit_follows (filters : List String) (mode : FilterMode) (target : Int32) :
    Follows (pidTrackerInit filters mode target) [] :=
  ⟨.empty, simulates_init filters mode target, fun _ _ hb => nomatch hb⟩

theorem follows_seedInitialPids (h : Follows tracker owing)
    (map : TrackedPidsMap) (seeds : List SeedPid) :
    Follows (seedInitialPids tracker map seeds).1 owing := by
  induction seeds using List.reverseRecOn with
  | nil => exact h
  | append_singleton seeds seed ih =>
    rw [seedInitialPids, foldl_append]
    have hadd := ih.add seed.pid seed.ppid
    change Follows (seedPid _ seed).1 owing
    unfold seedPid
    dsimp only
    split <;> exact hadd

section

variable (h : Follows t.tracker owing)
include h

/-- The pid of an event that is not an exit stays followed, and so do the others. -/
theorem Follows.handleEvent (hbody : e.body ≠ .exit) :
    Follows (t.handleEvent e sid).tracker owing := by
  rw [handleEvent_tracker]
  cases hcase : e.body with
  | exit => exact absurd hcase hbody
  | exec filename =>
    dsimp only
    split
    · exact h.add e.pid e.ppid
    · exact h
  | bashReadline command => exact h
  | fileOperation op => exact h
  | unknown type => exact h

theorem Follows.exit (hbody : e.body = .exit) :
    Follows (t.handleEvent e sid).tracker (owing.filter (·.1 ≠ e.pid)) := by
  rw [handleEvent_tracker, hbody]
  obtain ⟨S, hsimulates, hfollows⟩ := h
  refine ⟨S.remove e.pid, hsimulates.remove e.pid, fun hmode b hb => ?_⟩
  rw [filterMode_pidTrackerRemove] at hmode
  obtain ⟨hb, hpid⟩ := mem_filter.mp hb
  exact Finset.mem_erase.mpr ⟨by simpa using hpid, hfollows hmode b hb⟩

theorem Follows.sub (hsub : ∀ b ∈ owing', b ∈ owing) :
    Follows t.tracker owing' := by
  obtain ⟨S, hsimulates, hfollows⟩ := h
  exact ⟨S, hsimulates, fun hmode b hb => hfollows hmode b (hsub b hb)⟩

/-- An open that is reported is of a pid that is followed. -/
theorem Follows.insert (hjudges : t.judges e = true) :
    Follows t.tracker (owing.insert e.bucket) := by
  obtain ⟨S, hsimulates, hfollows⟩ := h
  refine ⟨S, hsimulates, fun hmode b hb => ?_⟩
  rcases mem_insert_iff.mp hb with rfl | hb
  · cases hbody : e.body with
    | fileOperation op =>
      simp only [ProcessTracer.judges, hbody, shouldReportFileOps, hmode,
        Bool.and_eq_true] at hjudges
      exact of_decide_eq_true ((hsimulates.isTracked e.pid).symm.trans hjudges.2)
    | _ => simp [ProcessTracer.judges, hbody] at hjudges
  · exact hfollows hmode b hb

/-- A pid that is passed over at its exit owes nothing. -/
theorem Follows.owing_of_passesOver (hover : t.passesOver e = true) :
    ∀ b ∈ owing, b.1 ≠ e.pid := by
  obtain ⟨S, hsimulates, hfollows⟩ := h
  simp only [ProcessTracer.passesOver, filterMode_pidTrackerRemove, Bool.and_eq_true,
    decide_eq_true_eq, Bool.not_eq_true', hsimulates.isTracked, decide_eq_false_iff_not] at hover
  intro b hb heq
  exact hover.1 (heq ▸ hfollows hover.2 b hb)

end

end Followed

/-! ### Runs -/

namespace RateRun

variable {s s' : RateRun} {a : Event × Int32}

/-- The limit and its warnings are as they should be. -/
structure Watched (s : RateRun) : Prop where
  ledger : Ledger s.tracer.pidLimits.items s.accepted s.owing s.due
  warned : s.tracer.warnings = s.due.map Prod.fst
  follows : Follows s.tracer.tracker s.owing

theorem watched_init (env : Env) (h : Follows tracker []) : (init env tracker).Watched where
  ledger := by
    refine ⟨.nil, ?_, ?_, .nil, fun _ => Nat.zero_le _, ?_⟩
    · exact fun _ hlimit => nomatch hlimit
    · exact fun _ hb => nomatch hb
    · exact fun _ hb => nomatch hb
  warned := rfl
  follows := h

/-- The buckets of a list that are one bucket, if it is there. -/
theorem filter_eq_of_unique {owing : List Bucket} (hnodup : owing.Nodup) {p : Bucket → Bool}
    {b : Bucket} (hp : ∀ c ∈ owing, p c = true ↔ c = b) :
    owing.filter p = if b ∈ owing then [b] else [] := by
  have hcongr : owing.filter p = owing.filter (· == b) := by
    refine filter_congr fun c hc => ?_
    rw [Bool.eq_iff_iff, hp c hc, beq_iff_eq]
  rw [hcongr, filter_beq]
  split
  · next hmem => rw [count_eq_one_of_mem hnodup hmem, replicate_one]
  · next hmem => rw [count_eq_zero_of_not_mem hmem, replicate_zero]

theorem Watched.step_exit (hs : s.Watched) (hbody : a.1.body = .exit)
    (hjudges : s.tracer.judges a.1 = false) (hstep : s.step a = some s') : s'.Watched := by
  obtain ⟨hlimits, hwarnings⟩ := ProcessTracer.handleEvent_exit (t := s.tracer) a.2 hbody
  have hfollows : Follows (s.tracer.handleEvent a.1 a.2).tracker
      (s.owing.filter (·.1 ≠ a.1.pid)) := hs.follows.exit hbody
  have hs' : s' =
      { tracer := s.tracer.handleEvent a.1 a.2
        accepted := s.accepted
        owing := s.owing.filter (·.1 ≠ a.1.pid)
        due := s.due ++ s.owing.filter (·.1 = a.1.pid) } := by
    simp only [RateRun.step, hjudges, Bool.false_eq_true, if_false, hbody] at hstep
    exact (Option.some.inj hstep).symm
  subst hs'
  -- Nothing changes where the pid owes nothing.
  have hnone (hclear : ∀ b ∈ s.owing, b.1 ≠ a.1.pid) :
      s.owing.filter (·.1 = a.1.pid) = [] ∧ s.owing.filter (·.1 ≠ a.1.pid) = s.owing := by
    constructor
    · exact filter_eq_nil_iff.mpr fun b hb => by simpa using hclear b hb
    · exact filter_eq_self.mpr fun b hb => by simpa using hclear b hb
  by_cases hsettles : (!s.tracer.passesOver a.1 &&
      s.tracer.pidLimits.items.any (ProcessTracer.pendingLimit a.1)) = true
  · rw [if_pos hsettles] at hlimits hwarnings
    obtain ⟨-, hpending⟩ := Bool.and_eq_true_iff.mp hsettles
    obtain ⟨limit, hfind⟩ := Option.isSome_iff_exists.mp (find?_isSome.mpr
      (any_eq_true.mp hpending))
    have hlimit := find?_some hfind
    simp only [ProcessTracer.pendingLimit, Bool.and_eq_true, decide_eq_true_eq] at hlimit
    obtain ⟨hpid, hwarns⟩ := hlimit
    rw [find?_eq_getElem?_findIdx] at hfind
    have hledger := hs.ledger.perm (swapRemove_perm hfind).symm
    have hmem := ((hledger.tells limit mem_cons_self).owes).mp hwarns
    have howed : s.owing.filter (·.1 = a.1.pid) = [(limit.pid, limit.currentSecond)] := by
      rw [filter_eq_of_unique (nodup_append.mp hs.ledger.once).2.1
        (b := (limit.pid, limit.currentSecond)), if_pos hmem]
      intro c hc
      rw [decide_eq_true_eq, ← hpid]
      exact ⟨hledger.owing_of_pid hc, fun heq => heq ▸ rfl⟩
    refine ⟨?_, ?_, hfollows⟩
    · rw [hlimits, ← hpid]
      exact hledger.exit
    · rw [hwarnings, hs.warned, howed, map_append, map_singleton, hpid]
  · rw [if_neg hsettles] at hlimits hwarnings
    have hclear : ∀ b ∈ s.owing, b.1 ≠ a.1.pid := by
      by_cases hover : s.tracer.passesOver a.1 = true
      · exact hs.follows.owing_of_passesOver hover
      · intro b hb heq
        obtain ⟨limit, hlimit, rfl⟩ := hs.ledger.entry b hb
        have hwarns := ((hs.ledger.tells limit hlimit).owes).mpr hb
        refine hsettles (Bool.and_eq_true_iff.mpr ⟨by simpa using hover, ?_⟩)
        exact any_eq_true.mpr ⟨limit, hlimit, by simp_all [ProcessTracer.pendingLimit]⟩
    obtain ⟨howed, hleft⟩ := hnone hclear
    rw [hleft] at hfollows
    rw [howed, hleft, append_nil]
    exact ⟨hlimits ▸ hs.ledger, hwarnings.trans hs.warned, hfollows⟩

/-- The bucket is of the pid of the event, and before it. -/
def earlier (e : Event) (b : Bucket) : Bool := b.1 = e.pid && b.2 < e.bucket.2

theorem step_of_drops (hjudges : s.tracer.judges a.1 = true) (hdrops : s.tracer.drops a.1 = true)
    (hstep : s.step a = some s') :
    s' = { s with
      tracer := s.tracer.handleEvent a.1 a.2
      owing := s.owing.insert a.1.bucket } := by
  simp only [RateRun.step, hjudges, hdrops, if_true] at hstep
  exact (Option.some.inj hstep).symm

theorem step_of_passes (hjudges : s.tracer.judges a.1 = true)
    (hdrops : s.tracer.drops a.1 = false) (hstep : s.step a = some s') :
    s' =
      { tracer := s.tracer.handleEvent a.1 a.2
        accepted := s.accepted ++ [a.1.bucket]
        owing := s.owing.filter fun b => !earlier a.1 b
        due := s.due ++ s.owing.filter (earlier a.1) } := by
  simp only [RateRun.step, hjudges, hdrops, if_true, Bool.false_eq_true, if_false] at hstep
  exact (Option.some.inj hstep).symm

/-- An open in the second of the entry of its pid. -/
theorem Watched.step_again (hs : s.Watched) (hjudges : s.tracer.judges a.1 = true)
    (hstep : s.step a = some s') {rest : List PerSecondLimit}
    (hledger : Ledger (limit :: rest) s.accepted s.owing s.due)
    (hbucket : a.1.bucket = (limit.pid, limit.currentSecond))
    (hcount : limit.distinctFileCount.toNat + 1 < 2 ^ 32)
    (hitems : (shouldRateLimitFile s.tracer.pidLimits a.1.pid a.1.timestampNs).1.items.Perm
      ((limit.tick a.1.bucket.2).1 :: rest))
    (hresult : (shouldRateLimitFile s.tracer.pidLimits a.1.pid a.1.timestampNs).2 =
      (limit.tick a.1.bucket.2).2) : s'.Watched := by
  obtain ⟨hlimits, hdropped, hquiet, -⟩ := ProcessTracer.handleEvent_open a.2 hjudges
  have hbody := s.tracer.body_of_judges hjudges
  obtain ⟨count, hnext, htick⟩ := @PerSecondLimit.tick_again limit a.1.bucket.2
    (by rw [hbucket]) hcount
  rw [htick] at hitems hresult
  have hdrops : s.tracer.drops a.1 = _ := congrArg Prod.fst hresult
  have hadds : (shouldRateLimitFile s.tracer.pidLimits a.1.pid a.1.timestampNs).2.2 = _ :=
    congrArg Prod.snd hresult
  by_cases hover : 30 < count.toNat
  · simp only [if_pos hover] at hitems hdrops
    rw [step_of_drops hjudges hdrops hstep]
    refine ⟨?_, (hdropped hdrops).trans hs.warned, ?_⟩
    · rw [hlimits, hbucket]
      exact (hledger.drop hnext hover).perm hitems.symm
    · exact (hs.follows.insert hjudges).handleEvent hbody
  · simp only [if_neg hover] at hitems hdrops hadds
    have hnone : ∀ b ∈ s.owing, earlier a.1 b = false := by
      intro b hb
      by_contra hearly
      obtain ⟨hpid, hlt⟩ : b.1 = a.1.pid ∧ b.2 < a.1.bucket.2 := by
        simpa [earlier] using hearly
      have hown := hledger.owing_of_pid hb (hpid.trans (congrArg Prod.fst hbucket))
      rw [hown, hbucket] at hlt
      exact UInt64.lt_irrefl _ hlt
    have hsettled : s.owing.filter (earlier a.1) = [] :=
      filter_eq_nil_iff.mpr fun b hb => by simp [hnone b hb]
    have hleft : (s.owing.filter fun b => !earlier a.1 b) = s.owing :=
      filter_eq_self.mpr fun b hb => by simp [hnone b hb]
    rw [step_of_passes hjudges hdrops hstep, hsettled, hleft, append_nil]
    refine ⟨?_, (hquiet hdrops hadds).trans hs.warned, hs.follows.handleEvent hbody⟩
    rw [hlimits, hbucket]
    exact (hledger.pass hnext hover).perm hitems.symm

/-- An open in a second that is new to its pid. -/
theorem Watched.step_next (hs : s.Watched) (hjudges : s.tracer.judges a.1 = true)
    (hstep : s.step a = some s') {rest : List PerSecondLimit} {addWarning : Bool}
    (hrest : ∀ other ∈ s.tracer.pidLimits.items, other.pid ≠ a.1.pid → other ∈ rest)
    (hsub : ∀ other ∈ rest, other ∈ s.tracer.pidLimits.items)
    (hkeys : (a.1.pid :: rest.map PerSecondLimit.pid).Nodup)
    (hnew : ∀ b ∈ s.accepted, b.1 = a.1.pid → b.2 < a.1.bucket.2)
    (howed : (s.owing.filter (earlier a.1)).map Prod.fst =
      if addWarning then [a.1.pid] else [])
    (hcarries : addWarning = true → s.tracer.Unrepeated a.1)
    (hitems : (shouldRateLimitFile s.tracer.pidLimits a.1.pid a.1.timestampNs).1.items.Perm
      (⟨a.1.pid, a.1.bucket.2, 1, false⟩ :: rest))
    (hresult : (shouldRateLimitFile s.tracer.pidLimits a.1.pid a.1.timestampNs).2 =
      (false, addWarning)) : s'.Watched := by
  obtain ⟨hlimits, -, hquiet, hwarned⟩ := ProcessTracer.handleEvent_open a.2 hjudges
  have hdrops : s.tracer.drops a.1 = false := congrArg Prod.fst hresult
  have hadds : (shouldRateLimitFile s.tracer.pidLimits a.1.pid a.1.timestampNs).2.2 = addWarning :=
    congrArg Prod.snd hresult
  have hbody := s.tracer.body_of_judges hjudges
  rw [step_of_passes hjudges hdrops hstep]
  refine ⟨?_, ?_, (hs.follows.sub fun b => mem_of_mem_filter).handleEvent hbody⟩
  · rw [hlimits]
    exact (hs.ledger.next hrest hsub hkeys hnew).perm hitems.symm
  · rw [map_append, howed, ← hs.warned]
    cases addWarning with
    | false => exact (hquiet hdrops hadds).trans (append_nil _).symm
    | true => exact hwarned hdrops hadds (hcarries rfl)

theorem Watched.step_open (hs : s.Watched) (hok : s.Steady a)
    (hjudges : s.tracer.judges a.1 = true) (hstep : s.step a = some s') : s'.Watched := by
  obtain ⟨hroom, hcount, horder, hfresh, hcarries⟩ := hok hjudges
  obtain ⟨limit, rest, hpid, hfound, hitems, hresult⟩ :=
    @shouldRateLimitFile_cases _ _ a.1.timestampNs hroom
  rcases hfound with hperm | ⟨hnone, rfl, hperm⟩
  · have hledger := hs.ledger.perm hperm
    have htells := hledger.tells limit mem_cons_self
    have hmem : limit ∈ s.tracer.pidLimits.items := hperm.mem_iff.mpr mem_cons_self
    by_cases hsecond : limit.currentSecond = a.1.bucket.2
    · have hbucket : a.1.bucket = (limit.pid, limit.currentSecond) :=
        Prod.ext hpid.symm hsecond.symm
      exact hs.step_again hjudges hstep hledger hbucket (hcount limit hmem hpid) hitems hresult
    · have hlt : limit.currentSecond < a.1.bucket.2 := by
        have hle := horder _ htells.mem_accepted hpid
        exact UInt64.lt_of_le_of_ne hle hsecond
      have htick := PerSecondLimit.tick_next hsecond
      rw [show a.1.timestampNs / 1000000000 = a.1.bucket.2 from rfl, htick] at hitems hresult
      rw [hpid] at hitems
      have hunique : ∀ b ∈ s.owing,
          earlier a.1 b = true ↔ b = (limit.pid, limit.currentSecond) := by
        intro b hb
        constructor
        · intro hearly
          exact hledger.owing_of_pid hb (by simp_all [earlier])
        · rintro rfl
          simp [earlier, hpid, hlt]
      have howed : s.owing.filter (earlier a.1) =
          if limit.shouldWarnNext then [(limit.pid, limit.currentSecond)] else [] := by
        rw [filter_eq_of_unique (nodup_append.mp hs.ledger.once).2.1 hunique]
        exact if_congr htells.owes.symm rfl rfl
      refine hs.step_next hjudges hstep (fun other hother hne => ?_)
        (fun other hother => hperm.mem_iff.mpr (mem_cons_of_mem _ hother))
        (hpid ▸ hledger.keys) (fun b hb heq => ?_) ?_ (fun hwarns => ?_) hitems hresult
      · exact mem_rest_of_ne other (hperm.mem_iff.mp hother) (hpid.symm ▸ hne)
      · exact UInt64.lt_of_le_of_lt (htells.latest b hb (heq.trans hpid.symm)) hlt
      · rw [howed]
        split
        · rw [map_singleton, hpid]
        · rfl
      · exact hcarries ⟨_, htells.owes.mp hwarns, hpid, hlt⟩
  · have hkeys : (a.1.pid :: rest.map PerSecondLimit.pid).Nodup := by
      refine nodup_cons.mpr ⟨fun hmem => ?_, (hs.ledger.perm hperm).keys⟩
      obtain ⟨other, hother, heq⟩ := mem_map.mp hmem
      exact hnone other (hperm.mem_iff.mpr hother) heq
    have hclear : s.owing.filter (earlier a.1) = [] := by
      refine filter_eq_nil_iff.mpr fun b hb hearly => ?_
      obtain ⟨other, hother, rfl⟩ := hs.ledger.entry b hb
      exact hnone other hother (by simp_all [earlier])
    have hzero : (0 : UInt32).toNat + 1 < 2 ^ 32 := by decide
    obtain ⟨count, hnext, htick⟩ := @PerSecondLimit.tick_again ⟨a.1.pid, a.1.bucket.2, 0, false⟩
      a.1.bucket.2 rfl hzero
    obtain rfl : count = 1 := UInt32.toNat_inj.mp hnext
    rw [show a.1.timestampNs / 1000000000 = a.1.bucket.2 from rfl, htick] at hitems hresult
    refine @Watched.step_next _ _ _ hs hjudges hstep rest false
      (fun other hother _ => hperm.mem_iff.mp hother)
      (fun other hother => hperm.mem_iff.mpr hother) hkeys (fun b hb heq => ?_) ?_ nofun hitems
      hresult
    · refine UInt64.lt_of_le_of_ne (horder b hb heq) fun hsecond => hfresh hnone ?_
      rwa [← show b = a.1.bucket from Prod.ext heq hsecond]
    · rw [hclear]
      rfl

theorem Watched.step (hs : s.Watched) (hok : s.Steady a) (hstep : s.step a = some s') :
    s'.Watched := by
  cases hjudges : s.tracer.judges a.1 with
  | true => exact hs.step_open hok hjudges hstep
  | false =>
    by_cases hbody : a.1.body = .exit
    · exact hs.step_exit hbody hjudges hstep
    · obtain ⟨hlimits, hwarnings⟩ := ProcessTracer.handleEvent_other a.2 hjudges hbody
      have hsame : s' = { s with tracer := s.tracer.handleEvent a.1 a.2 } := by
        simp only [RateRun.step, hjudges, Bool.false_eq_true, if_false] at hstep
        exact (Option.some.inj hstep).symm
      subst hsame
      exact ⟨hlimits ▸ hs.ledger, hwarnings.trans hs.warned, hs.follows.handleEvent hbody⟩

end RateRun

/-- **Limits and warnings hold** in every run whose opens find an entry, come in the order of their
seconds and do not lose their warning: no bucket accepts more than 30 opens, the warnings printed
are those that were due, in their order, and no bucket owes two. -/
theorem rateLimit_holds (env : Env) (commandFilters : List String) (filterMode : FilterMode)
    (targetPid : Int32) (seeds : List SeedPid) (s : RateRun)
    (h : Reaches RateRun.step RateRun.Steady (.init env
      (seedInitialPids (pidTrackerInit commandFilters filterMode targetPid) .empty seeds).1) s) :
    (∀ b, s.accepted.count b ≤ 30) ∧ s.tracer.warnings = s.due.map Prod.fst ∧
      (s.due ++ s.owing).Nodup := by
  have hstart := RateRun.watched_init env (follows_seedInitialPids
    (pidTrackerInit_follows commandFilters filterMode targetPid) .empty seeds)
  have hs : s.Watched := h.invariant hstart fun _ _ _ hs hok hstep => hs.step hok hstep
  exact ⟨hs.ledger.bounded, hs.warned, hs.ledger.once⟩

section Example

/-- 31 opens of a path in one second. -/
def manyOpens : List (Event × Int32) :=
  (List.range 31).map fun i => FileOpenRun.shellOpens (UInt64.ofNat i) FileOpenRun.slashA

/-- The next second opens another path. -/
theorem rateLimit_holds_of_manyOpens : ∃ s : RateRun,
    s.due = [(7, 0)] ∧ s.tracer.warnings = [7] ∧ (∀ b, s.accepted.count b ≤ 30) := by
  obtain ⟨s, hreaches, hdue⟩ := exists_reaches_of_run (Q := fun s : RateRun => s.due = [(7, 0)])
    RateRun.step RateRun.Steady
    (.init ⟨false, 0⟩ (seedInitialPids (pidTrackerInit [] .all 0) .empty []).1)
    (manyOpens ++ [FileOpenRun.shellOpens 1000000000 FileOpenRun.slashB]) (by decide)
  obtain ⟨hbounded, hwarned, -⟩ := rateLimit_holds ⟨false, 0⟩ [] .all 0 [] s hreaches
  exact ⟨s, hdue, hwarned.trans (by rw [hdue]; rfl), hbounded⟩

/-- The next second opens the path again, which only raises the count of its entry. -/
theorem repeated_open_loses_warning : ¬ ∀ s : RateRun, Reaches RateRun.step always
      (.init ⟨false, 0⟩ (seedInitialPids (pidTrackerInit [] .all 0) .empty []).1) s →
    (∀ b, s.accepted.count b ≤ 30) ∧ s.tracer.warnings = s.due.map Prod.fst ∧
      (s.due ++ s.owing).Nodup := by
  intro h
  obtain ⟨s, hreaches, hdue, hwarnings⟩ := exists_reaches_of_run
    (Q := fun s : RateRun => s.due = [(7, 0)] ∧ s.tracer.warnings = [])
    RateRun.step always
    (.init ⟨false, 0⟩ (seedInitialPids (pidTrackerInit [] .all 0) .empty []).1)
    (manyOpens ++ [FileOpenRun.shellOpens 1000000000 FileOpenRun.slashA]) (by decide)
  have hwarned := (h s hreaches).2.1
  rw [hdue, hwarnings] at hwarned
  cases hwarned

end Example

end AgentSight.Bpf
